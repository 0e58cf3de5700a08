import ResourceCompiler.Proofs.Reading.Grammar
import ResourceCompiler.Reading.Declaration

/-!
The parsers of declarations. An instance may hold others, and is read with so many levels to spare.
As every level reads a token, all that matters is that there are more levels than unread tokens.
-/

namespace ResourceCompiler

namespace Parser

variable {α β : Type}

/-- Two parsers that do the same wherever fewer tokens than the limit are unread. -/
def AgreeBelow (limit : Nat) (p q : Parser α) : Prop :=
  ∀ c : Cursor, c.unread.length < limit → p c = q c

theorem agree_refl (limit : Nat) (p : Parser α) : AgreeBelow limit p p := fun _ _ => rfl

theorem AgreeBelow.bind {limit : Nat} {p q : Parser α} {f : α → Parser β}
    (h : AgreeBelow limit p q) : AgreeBelow limit (p >>= f) (q >>= f) := by
  intro c hc
  rw [Attempt.bind_apply, Attempt.bind_apply, h c hc]

/-- What was read before counts towards the limit. -/
theorem Local.agree_bind {limit n a : Nat} {p : Parser α} {f g : α → Parser β} (hp : Local n a p)
    (h : ∀ x, AgreeBelow (limit - n) (f x) (g x)) : AgreeBelow limit (p >>= f) (p >>= g) := by
  intro c hc
  rw [Attempt.bind_apply, Attempt.bind_apply]
  rcases hr : p c with ⟨_ | x, c₁⟩
  · rfl
  · obtain ⟨taken, ht, hlen⟩ := hp.reads hr
    refine h x c₁ ?_
    rw [ht, List.length_append] at hc
    omega

theorem AgreeBelow.ite {limit : Nat} {c : Prop} [Decidable c] {p p' q q' : Parser α}
    (hp : AgreeBelow limit p p') (hq : AgreeBelow limit q q') :
    AgreeBelow limit (if c then p else q) (if c then p' else q') := by
  split
  · exact hp
  · exact hq

theorem agree_rounds {limit a : Nat} {round round' : β → Parser (Round β)}
    (hl : ∀ state, Local 0 a (round state))
    (h : ∀ state, AgreeBelow limit (round state) (round' state)) (allowance : List Token)
    (state : β) :
    AgreeBelow limit (rounds round allowance state) (rounds round' allowance state) := by
  induction allowance generalizing state with
  | nil => exact (h state).bind
  | cons _ allowance ih =>
    intro c hc
    rw [rounds, rounds, Attempt.bind_apply, Attempt.bind_apply, ← h state c hc]
    rcases hr : round state c with ⟨_ | r, c₁⟩
    · rfl
    · cases r with
      | done state' => rfl
      | again state' =>
        obtain ⟨taken, ht, -⟩ := (hl state).reads hr
        refine ih state' c₁ ?_
        rw [ht, List.length_append] at hc
        omega

theorem agree_until_closed {limit : Nat} (closing : TokenKind) {item item' : β → Parser β}
    (hl : ∀ state, Local 1 1 (item state))
    (h : ∀ state, AgreeBelow limit (item state) (item' state)) (state : β) :
    AgreeBelow limit (untilClosed closing item state) (untilClosed closing item' state) := by
  have hround (state : β) : Local 1 1 (do return Round.again (← item state)) :=
    (hl state).bind fun _ => local_pure _
  refine AgreeBelow.bind fun c hc => ?_
  refine agree_rounds (fun state => (local_closing_round closing hround state).1) (fun state => ?_)
    c.unread state c hc
  exact (local_next_is _).agree_bind fun _ =>
    AgreeBelow.ite (agree_refl _ _) (h state).bind

end Parser

namespace Declaration

open ResourceCompiler.Parser

theorem local_resource_id (t : Token) : Local 0 0 (resourceId t) := local_demand ..

theorem local_identity_attribute (identity : Int64 × String) :
    Local 2 0 (identityAttribute identity) := by
  refine (local_ensure _).bind (n := 1) (b := 0) fun key => ?_
  refine (local_ensure _).bind (n := 0) (b := 0) fun _ => ?_
  split
  · exact ((local_ensure _).bind fun _ => (local_resource_id _).bind fun _ =>
      local_pure _).weaken (by decide)
  · exact ((local_ensure _).bind fun _ => local_pure _).weaken (by decide)
  · exact local_fail ..

theorem local_attributes (identity : Int64 × String) : Local 0 1 (attributes identity) := by
  refine (local_accept _).bind (n := 0) (b := 0) fun opening => ?_
  cases opening with
  | none => exact local_pure _
  | some _ =>
    have hitem (identity : Int64 × String) : Local 1 1 (identityAttribute identity) :=
      (local_identity_attribute identity).weaken (by decide)
    exact (local_list_until_closed _ hitem _).weaken (by decide)

theorem local_values (field : Token) : Local 1 0 (values field) := by
  have hvalue (values : List Value) : Local 1 1 (do return values ++ [← Literal.value]) :=
    Literal.local_value.bind fun _ => local_pure _
  exact (local_until_closed _ hvalue []).bind (n := 0) (b := 0) fun _ =>
    .ite (local_fail ..) (local_pure _)

theorem local_opens_nested : Local 0 2 (look opensNested) := by
  refine local_look fun front rest other last hlen => ?_
  simp only [opensNested, Cursor.expects]
  congr 1 <;> exact all_hold_append rest other hlen

variable {registry : Registry}

/-- The part of an assignment behind the equals sign, if it declares a nested resource. -/
def nestedPart (registry : Registry)
    (readNested : String → Int64 × String → Parser InstanceTree)
    (tree : Instance × List InstanceTree) (field : Token) :
    Parser (Instance × List InstanceTree) := do
  let (reference, id) ← Attempt.lift (nestedReference registry tree.1 field)
  let child ← readNested reference.targetType (id, tree.1.name)
  if !reference.allows child.root.id then
    failMeaning field.location (.nestedIdOutsideRange reference.targetType child.root.id
      reference.lowestId reference.highestId)
  let _ ← acceptKind .semicolon
  return (tree.1, tree.2 ++ [child])

/-- The same part of an assignment of values. -/
def valuesPart (tree : Instance × List InstanceTree) (field : Token) :
    Parser (Instance × List InstanceTree) := do
  let values ← values field
  let root ← Attempt.lift (tree.1.assign ⟨field.text, values, field.location⟩)
  return (root, tree.2)

theorem assignment_eq (readNested : String → Int64 × String → Parser InstanceTree)
    (tree : Instance × List InstanceTree) : assignment registry readNested tree = (do
      let field ← ensureKind .identifier
      let _ ← ensureKind .equals
      if ← look opensNested then nestedPart registry readNested tree field
      else valuesPart tree field) := rfl

theorem local_nested_part {readNested : String → Int64 × String → Parser InstanceTree}
    (hnested : ∀ type identity, Local 3 0 (readNested type identity))
    (tree : Instance × List InstanceTree) (field : Token) :
    Local 3 1 (nestedPart registry readNested tree field) := by
  refine (local_lift _).bind (n := 3) (b := 1) fun (reference, id) => ?_
  refine (hnested _ _).bind (n := 0) (b := 1) fun child => ?_
  have hend : Local 0 1 (do
      let _ ← acceptKind .semicolon
      return (tree.1, tree.2 ++ [child])) :=
    (local_accept _).bind fun _ => local_pure _
  exact .ite ((local_fail 0 0 _).bind fun _ => hend) hend

theorem local_values_part (tree : Instance × List InstanceTree) (field : Token) :
    Local 1 0 (valuesPart tree field) :=
  (local_values field).bind (n := 0) (b := 0) fun _ => (local_lift _).bind fun _ => local_pure _

/-- Where an assignment looks two tokens ahead for a nested instance, it reads at least one. -/
theorem local_assignment {readNested : String → Int64 × String → Parser InstanceTree}
    (hnested : ∀ type identity, Local 3 0 (readNested type identity))
    (tree : Instance × List InstanceTree) : Local 3 1 (assignment registry readNested tree) := by
  rw [assignment_eq]
  refine (local_ensure _).bind (n := 2) (b := 1) fun field => ?_
  refine (local_ensure _).bind (n := 1) (b := 1) fun _ => ?_
  refine local_opens_nested.bind (n := 1) (b := 1) fun _ => ?_
  refine .ite ((local_nested_part hnested tree field).weaken (by decide)) ?_
  exact (local_values_part tree field).weaken (by decide)

theorem agree_assignment {limit : Nat}
    {readNested readNested' : String → Int64 × String → Parser InstanceTree}
    (h : ∀ type identity, AgreeBelow limit (readNested type identity) (readNested' type identity))
    (tree : Instance × List InstanceTree) :
    AgreeBelow limit (assignment registry readNested tree)
      (assignment registry readNested' tree) := by
  have hpart (field : Token) : AgreeBelow limit (nestedPart registry readNested tree field)
      (nestedPart registry readNested' tree field) :=
    (local_lift _).agree_bind fun (reference, id) => (h _ _).bind
  rw [assignment_eq, assignment_eq]
  have hread (kind : TokenKind) : Local 0 0 (ensureKind kind) :=
    (local_ensure _).weaken (by decide)
  exact (hread _).agree_bind fun field => (hread _).agree_bind fun _ =>
    local_opens_nested.agree_bind fun _ => AgreeBelow.ite (hpart field) (agree_refl _ _)

theorem local_instance_tree (levels : Nat) (type : String) (identity : Int64 × String) :
    Local 3 0 (instanceTree registry levels type identity) := by
  induction levels generalizing type identity with
  | zero =>
    constructor
    · intro _ _ _ h
      cases h
    · intro _ _ _ _ _ _ h
      cases h
  | succ levels ih =>
    unfold instanceTree
    refine (local_ensure _).bind (n := 2) (b := 0) fun head => ?_
    refine (local_attributes _).bind (n := 2) (b := 0) fun (id, name) => ?_
    refine (local_ensure _).bind (n := 1) (b := 0) fun _ => ?_
    refine (local_until_closed _ (fun tree => ?_) _).bind (n := 0) (b := 0) fun _ => local_pure _
    exact (local_assignment ih tree).weaken (by decide)

/-- Levels beyond those that the unread tokens need make no difference. -/
theorem agree_instance_tree {limit levels levels' : Nat} (h : limit ≤ levels) (h' : limit ≤ levels')
    (type : String) (identity : Int64 × String) :
    AgreeBelow limit (instanceTree registry levels type identity)
      (instanceTree registry levels' type identity) := by
  induction limit generalizing levels levels' type identity with
  | zero => exact fun c hc => absurd hc (Nat.not_lt_zero _)
  | succ limit ih =>
    cases levels with
    | zero => omega
    | succ levels =>
      cases levels' with
      | zero => omega
      | succ levels' =>
        have hnested := ih (Nat.le_of_succ_le_succ h) (Nat.le_of_succ_le_succ h')
        unfold instanceTree
        -- The first token of the instance pays for the level.
        refine (local_ensure _).agree_bind fun head => ?_
        refine (local_attributes _).agree_bind fun (id, name) => ?_
        refine ((local_ensure _).weaken ⟨Nat.zero_le 1, Nat.le_refl 0⟩).agree_bind fun _ => ?_
        refine (agree_until_closed _ (fun tree => ?_) (fun tree => ?_) _).bind
        · exact (local_assignment (local_instance_tree levels) tree).weaken (by decide)
        · exact agree_assignment hnested tree

/-- The instances of a declaration, with fixed levels for each of them. -/
def instancesWithin (registry : Registry) (levels : Nat) (typeName : String) :
    Parser (List InstanceTree) :=
  untilClosed .rightBrace (fun trees => do
    let tree ← instanceTree registry levels typeName (0, "")
    let _ ← acceptKind .semicolon
    return trees ++ [tree]) []

theorem local_listed (levels : Nat) (typeName : String) (trees : List InstanceTree) :
    Local 1 1 (do
      let tree ← instanceTree registry levels typeName (0, "")
      let _ ← acceptKind .semicolon
      return trees ++ [tree]) :=
  ((local_instance_tree levels _ _).bind fun _ => (local_accept _).bind fun _ =>
    local_pure _).weaken (by decide)

theorem instances_eq {levels : Nat} {typeName : String} {c : Cursor}
    (h : c.unread.length < levels) :
    instances registry typeName c = instancesWithin registry levels typeName c :=
  agree_until_closed _ (local_listed _ _)
    (fun _ => (agree_instance_tree (Nat.le_refl _) h _ _).bind) [] c (Nat.lt_succ_self _)

theorem local_instances (typeName : String) : Local 1 0 (instances registry typeName) := by
  have hwithin (levels : Nat) : Local 1 0 (instancesWithin registry levels typeName) :=
    local_until_closed _ (local_listed levels typeName) []
  refine ⟨?_, ?_⟩
  · intro c c' trees h
    rw [instances_eq (Nat.lt_succ_self _)] at h
    exact (hwithin _).reads h
  · intro front behind rest last last' trees h hlen other
    let levels := (front ++ rest).length + (front ++ other).length + 1
    have hrest : (Cursor.mk (front ++ rest) last).unread.length < levels := by
      simp only [levels]
      omega
    have hother : (Cursor.mk (front ++ other) last).unread.length < levels := by
      simp only [levels]
      omega
    rw [instances_eq hrest] at h
    rw [instances_eq hother]
    exact (hwithin _).carries h hlen other

theorem local_body : Local 3 0 (body registry) := by
  refine (local_ensure _).bind (n := 2) (b := 0) fun type => ?_
  refine (local_ensure _).bind (n := 1) (b := 0) fun _ => ?_
  exact (local_lift _).bind fun _ => local_instances _

end Declaration

end ResourceCompiler

import ResourceCompiler.Proofs.Reading.Nesting
import ResourceCompiler.Proofs.Reading.Values

/-!
How declared resources can be spelled, and that they are read back from any of their spellings. A
resource may be declared inside a field of another one. It then starts with an id and a name that it
gets from there, and its own attributes say no more than what is different.
-/

namespace ResourceCompiler

open ResourceCompiler.Parser

/-- The assignment wherever it stands. -/
def Assignment.plain (a : Assignment) : Assignment :=
  { a with values := a.values.map Value.plain, location := .unknown }

/-- The instance wherever it stands. -/
def Instance.plain (i : Instance) : Instance :=
  { i with assignments := i.assignments.map Assignment.plain, location := .unknown }

namespace InstanceTree

mutual

/-- The tree wherever its parts stand. -/
def plain : InstanceTree → InstanceTree
  | node root nested => node root.plain (plainAll nested)

def plainAll : List InstanceTree → List InstanceTree
  | [] => []
  | tree :: rest => tree.plain :: plainAll rest

end

theorem plain_all_eq (trees : List InstanceTree) : plainAll trees = trees.map plain := by
  induction trees with
  | nil => rfl
  | cons tree rest ih => rw [plainAll, ih, List.map_cons]

theorem root_plain (tree : InstanceTree) : tree.plain.root = tree.root.plain := by
  cases tree
  rfl

end InstanceTree

/-! Attributes -/

namespace Declaration

/-- An attribute of a resource. -/
inductive IdentityPart
  | id (value : Int64)
  | name (text : String)

namespace IdentityPart

def Spells : IdentityPart → List Spelling → Prop
  | .id value, spelled => ∃ digits, Text.parseInt64 digits = some value ∧
      spelled = assigned "id" ++ [(.resourceId, digits)]
  | .name text, spelled => spelled = assigned "name" ++ [(.string, text)]

/-- The id and the name behind an attribute. -/
def set (identity : Int64 × String) : IdentityPart → Int64 × String
  | .id value => (value, identity.2)
  | .name text => (identity.1, text)

theorem Spells.starts {part : IdentityPart} {spelled : List Spelling} (h : part.Spells spelled) :
    spelled.head?.map (·.1) = some .identifier := by
  cases part with
  | id value =>
    obtain ⟨digits, -, rfl⟩ := h
    rfl
  | name text =>
    obtain rfl := h
    rfl

end IdentityPart

/-- Whether tokens spell attributes that lead from one id and name to another. Where there are none,
the parentheses may be left out too. -/
def SpellsAttributes (start reached : Int64 × String) (spelled : List Spelling) : Prop :=
  ∃ trailing, ∃ items : List (IdentityPart × List Spelling),
    (items.map Prod.fst).foldl IdentityPart.set start = reached ∧
      (∀ x ∈ items, x.1.Spells x.2) ∧
      (items = [] ∧ spelled = [] ∨ spelled =
        (.leftParen, "(") :: (separated Prod.snd trailing items ++ [(.rightParen, ")")]))

variable {spelled : List Spelling} {follow : Option TokenKind → Prop}

theorem reads_identity_attribute {part : IdentityPart} {identity : Int64 × String}
    (h : part.Spells spelled) :
    Reads (identityAttribute identity) spelled follow (· = part.set identity) := by
  cases part with
  | id value =>
    obtain ⟨digits, hdigits, rfl⟩ := h
    refine reads_token fun key _ hkey => reads_token fun _ _ _ => ?_
    rw [hkey]
    refine reads_token fun t _ htext => reads_demand ?_ (reads_pure rfl)
    rw [htext, hdigits]
  | name text =>
    obtain rfl := h
    refine reads_token fun key _ hkey => reads_token fun _ _ _ => ?_
    rw [hkey]
    refine reads_token fun t _ htext => reads_pure ?_
    rw [htext]
    rfl

theorem reads_attributes {start reached : Int64 × String}
    (h : SpellsAttributes start reached spelled) :
    Reads (attributes start) spelled (· ≠ some .leftParen) (· = reached) := by
  obtain ⟨trailing, items, hreached, hitems, ⟨rfl, rfl⟩ | rfl⟩ := h
  · exact reads_not_accepted (reads_pure hreached) fun k hk => hk
  · refine reads_accepted fun _ _ _ => ?_
    have hreads : ReadsItems identityAttribute .rightParen
        (fun k => k = some .comma ∨ k = some .rightParen) Prod.snd
        (fun done identity => identity = (done.map Prod.fst).foldl IdentityPart.set start) items := by
      refine ⟨fun identity => (local_identity_attribute identity).weaken (by decide),
        fun x hx => ⟨_, by decide, (hitems x hx).starts⟩, ?_⟩
      rintro done x rest hsplit _ rfl
      rw [List.map_append, List.foldl_append]
      exact reads_identity_attribute (hitems x (by simp [hsplit]))
    exact (hreads.list_until_closed (by decide) rfl trailing _).mono (fun _ _ => trivial)
      fun _ hread => hread.trans hreached

end Declaration

/-! Values -/

/-- A value starts with a token of one of its kinds. The word `new` is a value of its own. -/
theorem Value.Spells.starts {v : Value} {spelled : List Spelling} (h : v.Spells spelled) :
    ∃ first others, spelled = first :: others ∧ first.1 ∈ Literal.kinds ∧
      (first = (.identifier, "new") → others = []) := by
  unfold Value.Spells at h
  cases hf : v.form with
  | identifier | string | resourceId | percentage =>
    rw [hf] at h
    exact ⟨_, _, h, by simp [Literal.kinds], fun _ => rfl⟩
  | integer =>
    rw [hf] at h
    rcases h with h | ⟨digits, -, h | h⟩
    · exact ⟨_, _, h, by simp [Literal.kinds], fun _ => rfl⟩
    · exact ⟨_, _, h, by decide, by simp⟩
    · exact ⟨_, _, h, by decide, by simp⟩
  | fileReference =>
    rw [hf] at h
    exact ⟨_, _, h, by decide, by simp⟩
  | color =>
    rw [hf] at h
    obtain ⟨red, green, blue, -, -, -, -, h⟩ := h
    exact ⟨_, _, h, by decide, by simp⟩

/-- Whether tokens spell an assignment of values. -/
def Assignment.Spells (a : Assignment) (spelled : List Spelling) : Prop :=
  ∃ items : List (Value × List Spelling), items.map Prod.fst = a.values ∧
    (∀ x ∈ items, x.1.Spells x.2) ∧
    spelled = assigned a.field ++ (items.flatMap Prod.snd ++ [(.semicolon, ";")])

namespace Declaration

variable {items : List (Value × List Spelling)}

theorem reads_values {field : Token} (hne : items ≠ []) (hitems : ∀ x ∈ items, x.1.Spells x.2) :
    Reads (values field) (items.flatMap Prod.snd ++ [(.semicolon, ";")]) anything
      fun read => read.map Value.plain = (items.map Prod.fst).map Value.plain := by
  have hkinds (x : Value × List Spelling) (hx : x ∈ items) :
      ∃ kind ∈ Literal.kinds, x.2.head?.map (·.1) = some kind := by
    obtain ⟨first, others, he, hkind, -⟩ := (hitems x hx).starts
    exact ⟨first.1, hkind, by rw [he]; rfl⟩
  have hmark : ∀ kind ∈ Literal.kinds, kind ≠ .semicolon ∧ kind ≠ .leftParen := by decide
  have hreads : ReadsItems (fun values => do return values ++ [← Literal.value]) .semicolon
      (· ≠ some .leftParen) Prod.snd
      (fun done read => read.map Value.plain = (done.map Prod.fst).map Value.plain) items := by
    refine ⟨fun _ => Literal.local_value.bind fun _ => local_pure _, fun x hx => ?_, ?_⟩
    · obtain ⟨kind, hkind, hhead⟩ := hkinds x hx
      exact ⟨kind, (hmark kind hkind).1, hhead⟩
    · intro done x rest hsplit read hread
      rw [← List.append_nil x.2]
      refine (Literal.reads_value (hitems x (by simp [hsplit]))).bind_before (fun v hv => ?_)
        fun _ hk => hk
      exact reads_pure (by simp [hread, hv])
  rw [← List.append_nil (_ ++ _)]
  refine (hreads.until_closed_before (by decide) (fun x hx => ?_) rfl _).bind fun read hread => ?_
  · obtain ⟨kind, hkind, hhead⟩ := hkinds x hx
    rw [hhead]
    exact fun h => (hmark kind hkind).2 (Option.some.inj h)
  · have hsome : read ≠ [] := by
      rintro rfl
      exact hne (by simpa using hread.symm)
    rw [if_neg (by simpa using hsome)]
    exact reads_pure hread

/-- Whether a nested resource starts can be told from two tokens. -/
theorem opens_nested_eq {first second : Spelling} {others : List Spelling} {tokens : List Token}
    (ht : tokens.map Token.spelling = first :: second :: others) (rest : List Token)
    (last : Location) : opensNested ⟨tokens ++ rest, last⟩ =
      decide (first = (.identifier, "new") ∧ (second.1 = .leftBrace ∨ second.1 = .leftParen)) := by
  obtain ⟨t, behind, rfl, rfl, hbehind⟩ := List.map_eq_cons_iff.mp ht
  obtain ⟨u, others, rfl, rfl, -⟩ := List.map_eq_cons_iff.mp hbehind
  rw [Bool.eq_iff_iff, decide_eq_true_iff]
  simp only [opensNested, Cursor.expects, List.cons_append, Condition.allHold, Condition.holds,
    Condition.keyword, Condition.exactly, Condition.ofKind, Token.spelling, Option.all_some,
    Option.all_none, Bool.and_true, Bool.bne_false, Bool.or_eq_true, Bool.and_eq_true, beq_iff_eq,
    Prod.mk.injEq]
  exact and_or_left.symm

/-- Values are not mistaken for a nested resource. -/
theorem values_not_nested (hne : items ≠ []) (hitems : ∀ x ∈ items, x.1.Spells x.2)
    {tokens : List Token}
    (ht : tokens.map Token.spelling = items.flatMap Prod.snd ++ [(.semicolon, ";")])
    (rest : List Token) (last : Location) : opensNested ⟨tokens ++ rest, last⟩ = false := by
  have hmark : ∀ kind ∈ Literal.kinds, ¬(kind = .leftBrace ∨ kind = .leftParen) := by decide
  obtain ⟨x, more, rfl⟩ := List.exists_cons_of_ne_nil hne
  obtain ⟨first, others, hx, -, hnew⟩ := (hitems x List.mem_cons_self).starts
  rw [List.flatMap_cons, hx] at ht
  -- The second token is of the first value, or of the next one, or the semicolon.
  cases others with
  | cons second others =>
    rw [opens_nested_eq ht, decide_eq_false_iff_not]
    exact fun h => absurd (hnew h.1) (List.cons_ne_nil _ _)
  | nil =>
    cases more with
    | nil =>
      rw [opens_nested_eq ht, decide_eq_false_iff_not]
      simp
    | cons y more =>
      obtain ⟨second, others, hy, hkind, -⟩ := (hitems y (by simp)).starts
      rw [List.flatMap_cons, hy] at ht
      rw [opens_nested_eq ht, decide_eq_false_iff_not]
      exact fun h => hmark _ hkind h.2

end Declaration

/-! Resources -/

/-- Whether the field of a resource may declare another one inside it, which starts with an id. -/
def Instance.Nests (registry : Registry) (parent : Instance) (field : String) (id : Int64)
    (child : Instance) : Prop :=
  ∃ schema reference target, registry.get? parent.typeName = some schema ∧
    schema.reference? field = some reference ∧ reference.targetType = child.typeName ∧
    registry.get? child.typeName = some target ∧ reference.mapping.evaluate parent.id = .ok id ∧
    reference.allows child.id = true

namespace Declaration

/-- Nothing or a semicolon. -/
def semicolon : Bool → List Spelling
  | true => [(.semicolon, ";")]
  | false => []

/-- What stands between the braces of a resource: an assignment of values, or a field with another
resource, which starts with an id. -/
inductive Line
  | values (a : Assignment) (spelled : List Spelling)
  | nested (field : String) (id : Int64) (child : InstanceTree) (spelled : List Spelling)
      (ended : Bool)

namespace Line

def spelled : Line → List Spelling
  | .values _ spelled => spelled
  | .nested field _ _ spelled ended => assigned field ++ (spelled ++ semicolon ended)

def assignment? : Line → Option Assignment
  | .values a _ => some a
  | .nested .. => none

def nested? : Line → Option InstanceTree
  | .values .. => none
  | .nested _ _ child _ _ => some child

/-- Whether a line fits a resource, up to the tokens of a resource inside it. -/
def Says (registry : Registry) (root : Instance) : Line → Prop
  | .values a spelled => a.Spells spelled
  | .nested field id child _ _ => root.Nests registry field id child.root

theorem Says.starts {registry : Registry} {root : Instance} {line : Line}
    (h : line.Says registry root) : line.spelled.head?.map (·.1) = some .identifier := by
  cases line with
  | values a spelled =>
    obtain ⟨items, -, -, rfl⟩ := h
    rfl
  | nested field id child spelled ended => rfl

end Line

end Declaration

open Declaration in
/-- Whether tokens spell a resource that starts with an id and a name. Its lines may come in any
order that leaves the assignments and the nested resources each in theirs. -/
inductive InstanceTree.Spells (registry : Registry) :
    Int64 × String → InstanceTree → List Spelling → Prop
  | node {start : Int64 × String} {root : Instance} {nested : List InstanceTree}
      {attributes : List Spelling} {lines : List Line}
      (attributed : SpellsAttributes start (root.id, root.name) attributes)
      (assigns : lines.filterMap Line.assignment? = root.assignments)
      (nests : lines.filterMap Line.nested? = nested)
      (said : ∀ line ∈ lines, line.Says registry root)
      (children : ∀ field id child spelled ended, Line.nested field id child spelled ended ∈ lines →
        Spells registry (id, root.name) child spelled) :
      Spells registry start (.node root nested) ((.identifier, "new") :: (attributes ++
        (.leftBrace, "\x7b") :: (lines.flatMap Line.spelled ++ [(.rightBrace, "\x7d")])))

/-- What is demanded of a resource: ids are not below zero, a field is assigned once and not without
values, and each nested resource has a field that may declare it. -/
inductive InstanceTree.Valid (registry : Registry) : InstanceTree → Prop
  | node {root : Instance} {nested : List InstanceTree} (id_nonneg : 0 ≤ root.id)
      (fields : (root.assignments.map Assignment.field).Nodup)
      (values : ∀ a ∈ root.assignments, a.values ≠ [] ∧ ∀ v ∈ a.values, v.Spellable)
      (nests : ∀ child ∈ nested, ∃ field id, root.Nests registry field id child.root)
      (children : ∀ child ∈ nested, child.Valid registry) : Valid registry (.node root nested)

namespace Declaration

variable {registry : Registry} {spelled : List Spelling} {follow : Option TokenKind → Prop}

/-- A resource starts with the word `new` and one of two marks. -/
theorem spells_starts {start : Int64 × String} {tree : InstanceTree}
    (h : tree.Spells registry start spelled) : ∃ second others,
      spelled = (.identifier, "new") :: second :: others ∧
        (second.1 = .leftBrace ∨ second.1 = .leftParen) := by
  obtain ⟨⟨trailing, items, -, -, ⟨rfl, rfl⟩ | rfl⟩, -, -, -, -⟩ := h
  · exact ⟨_, _, rfl, .inl rfl⟩
  · exact ⟨_, _, rfl, .inr rfl⟩

theorem reads_semicolon {β : Type} {y : β} {wanted : β → Prop} (ended : Bool) (h : wanted y) :
    Reads (do
      let _ ← acceptKind .semicolon
      return y) (semicolon ended) (· ≠ some .semicolon) wanted := by
  cases ended with
  | true => exact reads_accepted fun _ _ _ => reads_pure h
  | false => exact reads_not_accepted (reads_pure h) fun k hk => hk

theorem reads_lift {α β : Type} {a : α} {r : Except CompileError α} {f : α → Parser β}
    {wanted : β → Prop} (h : r = .ok a) (hf : Reads (f a) spelled follow wanted) :
    Reads (Attempt.lift r >>= f) spelled follow wanted := by
  subst h
  exact hf

/-- The reference behind a field is found from the type and the id of the parent alone. -/
theorem nested_reference_eq {root child parent : Instance} {id : Int64} {field : Token}
    (h : root.Nests registry field.text id child) (htype : parent.typeName = root.typeName)
    (hparent : parent.id = root.id) :
    ∃ reference, nestedReference registry parent field = .ok (reference, id) ∧
      reference.targetType = child.typeName ∧ reference.allows child.id = true := by
  obtain ⟨schema, reference, target, hschema, hreference, htarget, hknown, hid, hallows⟩ := h
  rw [← htarget] at hknown
  refine ⟨reference, ?_, htarget, hallows⟩
  simp only [nestedReference, Registry.lookup, htype, hparent, hschema, hreference, hknown, hid,
    bind, Except.bind]
  rfl

/-- What was read of a resource, after some of its lines. -/
def Built (root : Instance) (done : List Line) (tree : Instance × List InstanceTree) : Prop :=
  tree.1.plain = { root with assignments := done.filterMap Line.assignment? }.plain ∧
    tree.2.map InstanceTree.plain = (done.filterMap Line.nested?).map InstanceTree.plain

theorem reads_values_line {readNested : String → Int64 × String → Parser InstanceTree}
    {root : Instance} {done : List Line} {a : Assignment} {tree : Instance × List InstanceTree}
    (h : a.Spells spelled) (hvalues : a.values ≠ [])
    (hnew : a.field ∉ (done.filterMap Line.assignment?).map Assignment.field)
    (hbuilt : Built root done tree) :
    Reads (assignment registry readNested tree) spelled follow
      (Built root (done ++ [.values a spelled])) := by
  obtain ⟨items, hitems, hspells, rfl⟩ := h
  obtain ⟨htype, hid, hname, hassignments, -⟩ := Instance.mk.inj hbuilt.1
  have hne : items ≠ [] := by
    rintro rfl
    exact hvalues hitems.symm
  have hfields : tree.1.assignments.map Assignment.field =
      (done.filterMap Line.assignment?).map Assignment.field := by
    have hmap := congrArg (List.map Assignment.field) hassignments
    rwa [List.map_map, List.map_map] at hmap
  rw [assignment_eq]
  refine reads_token fun field _ hfield => reads_token fun _ _ _ => ?_
  refine reads_look false ?_ fun tokens rest last ht => values_not_nested hne hspells ht rest last
  rw [if_neg Bool.false_ne_true, ← List.append_nil (_ ++ _)]
  refine (reads_values hne hspells).bind fun read hread => ?_
  refine reads_lift (Instance.assign_eq_ok.mpr ⟨?_, rfl⟩) (reads_pure ⟨?_, ?_⟩)
  · rwa [hfields, hfield]
  · rw [hitems] at hread
    simp [Instance.plain, Assignment.plain, Line.assignment?, htype, hid, hname, hassignments,
      hread, hfield]
  · rw [List.filterMap_append, hbuilt.2]
    simp [Line.nested?]

theorem reads_nested_line {readNested : String → Int64 × String → Parser InstanceTree}
    {root : Instance} {done : List Line} {field : String} {id : Int64} {child : InstanceTree}
    {ended : Bool} {tree : Instance × List InstanceTree}
    (h : root.Nests registry field id child.root)
    (hspells : child.Spells registry (id, root.name) spelled)
    (hchild : Reads (readNested child.root.typeName (id, root.name)) spelled anything
      fun read => read.plain = child.plain)
    (hbuilt : Built root done tree) :
    Reads (assignment registry readNested tree) (Line.nested field id child spelled ended).spelled
      (· ≠ some .semicolon) (Built root (done ++ [.nested field id child spelled ended])) := by
  obtain ⟨htype, hid, hname, -, -⟩ := Instance.mk.inj hbuilt.1
  rw [assignment_eq]
  refine reads_token fun word _ hword => reads_token fun _ _ _ => ?_
  refine reads_look true ?_ fun tokens rest last ht => ?_
  · obtain ⟨reference, hreference, htarget, hallows⟩ :=
      nested_reference_eq (hword ▸ h) htype hid
    rw [if_pos rfl]
    refine reads_lift hreference ?_
    dsimp only
    rw [htarget, hname]
    refine hchild.bind fun read hread => ?_
    have hroot : read.root.id = child.root.id := by
      have hplain := congrArg InstanceTree.root hread
      rw [InstanceTree.root_plain, InstanceTree.root_plain] at hplain
      exact (Instance.mk.inj hplain).2.1
    rw [hroot, hallows, Bool.not_true, if_neg Bool.false_ne_true]
    refine reads_semicolon ended ⟨?_, ?_⟩
    · have hsame : (done ++ [Line.nested field id child spelled ended]).filterMap Line.assignment? =
          done.filterMap Line.assignment? := by simp [Line.assignment?]
      rw [hsame]
      exact hbuilt.1
    · rw [List.filterMap_append, List.map_append, hbuilt.2]
      simp [Line.nested?, hread]
  · obtain ⟨second, others, rfl, hmark⟩ := spells_starts hspells
    rw [opens_nested_eq ht, decide_eq_true_iff]
    exact ⟨rfl, hmark⟩

/-- A resource is read back from each of its spellings. -/
theorem reads_instance_tree {start : Int64 × String} {tree : InstanceTree}
    (hspells : tree.Spells registry start spelled) (hvalid : tree.Valid registry) {levels : Nat}
    (hlevels : spelled.length ≤ levels) :
    Reads (instanceTree registry levels tree.root.typeName start) spelled anything
      fun read => read.plain = tree.plain := by
  induction hspells generalizing levels with
  | @node start root nested attributes lines attributed assigns nests said children ih =>
    obtain ⟨-, hfields, hvalues, -, hchildren⟩ := hvalid
    cases levels with
    | zero => simp at hlevels
    | succ levels =>
      have hreads : ReadsItems (assignment registry (instanceTree registry levels)) .rightBrace
          (· ≠ some .semicolon) Line.spelled (Built root) lines := by
        refine ⟨fun tree => (local_assignment (local_instance_tree levels) tree).weaken (by decide),
          fun line hline => ⟨_, by decide, (said line hline).starts⟩, ?_⟩
        intro done line rest hsplit tree hbuilt
        have hline : line ∈ lines := hsplit ▸ by simp
        cases line with
        | values a spelled =>
          have ha : a ∈ root.assignments := assigns ▸ List.mem_filterMap.mpr ⟨_, hline, rfl⟩
          have hsplit' : root.assignments = done.filterMap Line.assignment? ++
              a :: rest.filterMap Line.assignment? := by
            rw [← assigns, hsplit, List.filterMap_append]
            rfl
          rw [hsplit', List.map_append, List.nodup_append] at hfields
          exact reads_values_line (said _ hline) (hvalues a ha).1
            (fun hold => hfields.2.2 _ hold _ (by simp) rfl) hbuilt
        | nested field id child spelled ended =>
          have hchild : child ∈ nested := nests ▸ List.mem_filterMap.mpr ⟨_, hline, rfl⟩
          have hspelled : spelled.length ≤ levels := by
            simp only [hsplit, List.flatMap_append, List.flatMap_cons, Line.spelled,
              List.length_append, List.length_cons] at hlevels
            omega
          exact reads_nested_line (said _ hline) (children _ _ _ _ _ hline)
            (ih _ _ _ _ _ hline (hchildren child hchild) hspelled) hbuilt
      rw [instanceTree]
      refine reads_keyword fun head => ?_
      refine (reads_attributes attributed).bind_before ?_ fun k _ => by simp
      rintro _ rfl
      refine reads_token fun _ _ _ => ?_
      rw [← List.append_nil (_ ++ _)]
      refine (hreads.until_closed_before (by decide) (fun line hline => ?_) ⟨rfl, rfl⟩ _).bind
        fun tree htree => reads_pure ?_
      · rw [(said line hline).starts]
        decide
      · obtain ⟨hroot, hnested⟩ := htree
        rw [InstanceTree.plain, InstanceTree.plain, InstanceTree.plain_all_eq,
          InstanceTree.plain_all_eq, hroot, hnested, assigns, nests]

/-! Declarations -/

/-- Lines that say some parts one by one. -/
theorem exists_lines {ι : Type} {get : Line → Option ι} {good : Line → Prop} {parts : List ι}
    (h : ∀ x ∈ parts, ∃ line, get line = some x ∧ good line) :
    ∃ lines : List Line, lines.filterMap get = parts ∧ ∀ line ∈ lines, good line := by
  induction parts with
  | nil => exact ⟨[], rfl, by simp⟩
  | cons x rest ih =>
    obtain ⟨line, hget, hgood⟩ := h x List.mem_cons_self
    obtain ⟨lines, hlines, hrest⟩ := ih fun y hy => h y (List.mem_cons_of_mem x hy)
    refine ⟨line :: lines, by rw [List.filterMap_cons, hget, hlines], ?_⟩
    exact List.forall_mem_cons.mpr ⟨hgood, hrest⟩

theorem exists_assignment_spelling {a : Assignment} (h : ∀ v ∈ a.values, v.Spellable) :
    ∃ spelled, a.Spells spelled := by
  obtain ⟨items, hitems, hspelled⟩ := exists_spellings fun v hv => (h v hv).spells
  exact ⟨_, items, hitems, hspelled, rfl⟩

/-- An id and a name can be given to a resource, whatever it starts with. -/
theorem exists_attributes_spelling {id : Int64} (h : 0 ≤ id) (name : String)
    (start : Int64 × String) : ∃ spelled, SpellsAttributes start (id, name) spelled := by
  refine ⟨_, false, [(.id id, assigned "id" ++ [(.resourceId, toString id.toInt.toNat)]),
    (.name name, assigned "name" ++ [(.string, name)])], rfl, ?_, .inr rfl⟩
  simp only [List.forall_mem_cons]
  exact ⟨⟨_, Text.parse_int64_repr h, rfl⟩, rfl, nofun⟩

/-- A line that fits a resource, with the resource inside it spelled too. -/
def Line.Spelled (registry : Registry) (root : Instance) (line : Line) : Prop :=
  line.Says registry root ∧ ∀ field id child spelled ended,
    line = .nested field id child spelled ended → child.Spells registry (id, root.name) spelled

/-- Every resource that is valid can be spelled, whatever it starts with. -/
theorem exists_tree_spelling {tree : InstanceTree} (h : tree.Valid registry)
    (start : Int64 × String) : ∃ spelled, tree.Spells registry start spelled := by
  induction h generalizing start with
  | @node root nested hid hfields hvalues hnests hchildren ih =>
    have hassign : ∀ a ∈ root.assignments, ∃ line : Line, line.assignment? = some a ∧
        line.nested? = none ∧ line.Spelled registry root := by
      intro a ha
      obtain ⟨spelled, hspelled⟩ := exists_assignment_spelling (hvalues a ha).2
      exact ⟨.values a spelled, rfl, rfl, hspelled, nofun⟩
    have hnest : ∀ child ∈ nested, ∃ line : Line, line.nested? = some child ∧
        line.assignment? = none ∧ line.Spelled registry root := by
      intro child hchild
      obtain ⟨field, id, hedge⟩ := hnests child hchild
      obtain ⟨spelled, hspelled⟩ := ih child hchild (id, root.name)
      refine ⟨.nested field id child spelled false, rfl, rfl, hedge, ?_⟩
      rintro _ _ _ _ _ ⟨⟩
      exact hspelled
    obtain ⟨front, hfront, hvalued⟩ := exists_lines hassign
    obtain ⟨back, hback, hnested⟩ := exists_lines hnest
    obtain ⟨attributes, hattributes⟩ := exists_attributes_spelling hid root.name start
    have hnoNested : front.filterMap Line.nested? = [] :=
      List.filterMap_eq_nil_iff.mpr fun line hline => (hvalued line hline).1
    have hnoValues : back.filterMap Line.assignment? = [] :=
      List.filterMap_eq_nil_iff.mpr fun line hline => (hnested line hline).1
    have hspelled : ∀ line ∈ front ++ back, line.Spelled registry root := by
      intro line hline
      rcases List.mem_append.mp hline with h | h
      · exact (hvalued line h).2
      · exact (hnested line h).2
    have hassigns : (front ++ back).filterMap Line.assignment? = root.assignments := by
      rw [List.filterMap_append, hfront, hnoValues, List.append_nil]
    have hnests : (front ++ back).filterMap Line.nested? = nested := by
      rw [List.filterMap_append, hback, hnoNested, List.nil_append]
    exact ⟨_, .node hattributes hassigns hnests (fun line hline => (hspelled line hline).1)
      fun field id child spelled ended hline => (hspelled _ hline).2 _ _ _ _ _ rfl⟩

/-- Whether tokens spell a declaration of resources. A semicolon may follow each of them. -/
def Spells (registry : Registry) (type : String) (trees : List InstanceTree)
    (spelled : List Spelling) : Prop :=
  ∃ items : List (InstanceTree × List Spelling), items.map Prod.fst = trees ∧
    (∀ x ∈ items, ∃ own ended, x.1.Spells registry (0, "") own ∧ x.2 = own ++ semicolon ended) ∧
    spelled = (.identifier, "declare") :: (.identifier, type) :: block items

/-- Every list of valid resources can be declared. -/
theorem exists_declaration_spelling (type : String) {trees : List InstanceTree}
    (h : ∀ tree ∈ trees, tree.Valid registry) : ∃ spelled, Spells registry type trees spelled := by
  obtain ⟨items, hitems, hspelled⟩ :=
    exists_spellings fun tree htree => exists_tree_spelling (h tree htree) (0, "")
  exact ⟨_, items, hitems, fun x hx => ⟨x.2, false, hspelled x hx, by simp [semicolon]⟩, rfl⟩

/-- The resources of a declaration, with levels enough for all of their tokens. -/
theorem reads_instances_within {type : String} {items : List (InstanceTree × List Spelling)}
    (hvalid : ∀ x ∈ items, x.1.root.typeName = type ∧ x.1.Valid registry)
    (hspells : ∀ x ∈ items, ∃ own ended,
      x.1.Spells registry (0, "") own ∧ x.2 = own ++ semicolon ended)
    {levels : Nat} (hlevels : (items.flatMap Prod.snd).length ≤ levels) (text : String) :
    Reads (instancesWithin registry levels type)
      (items.flatMap Prod.snd ++ [(.rightBrace, text)]) anything
      fun read => read.map InstanceTree.plain = (items.map Prod.fst).map InstanceTree.plain := by
  have hstarts (x : InstanceTree × List Spelling) (hx : x ∈ items) :
      x.2.head?.map (·.1) = some .identifier := by
    obtain ⟨own, ended, hown, he⟩ := hspells x hx
    obtain ⟨second, others, rfl, -⟩ := spells_starts hown
    rw [he]
    rfl
  have hreads : ReadsItems (fun trees => do
      let tree ← instanceTree registry levels type (0, "")
      let _ ← acceptKind .semicolon
      return trees ++ [tree]) .rightBrace (· ≠ some .semicolon) Prod.snd
      (fun done read => read.map InstanceTree.plain = (done.map Prod.fst).map InstanceTree.plain)
      items := by
    refine ⟨local_listed levels type, fun x hx => ⟨_, by decide, hstarts x hx⟩, ?_⟩
    intro done x rest hsplit read hread
    have hx : x ∈ items := by simp [hsplit]
    obtain ⟨own, ended, hown, he⟩ := hspells x hx
    obtain ⟨htype, htree⟩ := hvalid x hx
    have hlength : own.length ≤ levels := by
      simp only [hsplit, List.flatMap_append, List.flatMap_cons, he, List.length_append] at hlevels
      omega
    have hone := reads_instance_tree hown htree hlength
    rw [htype] at hone
    rw [he]
    refine hone.bind fun tree hplain => reads_semicolon ended ?_
    simp [hread, hplain]
  refine hreads.until_closed_before (by decide) (fun x hx => ?_) rfl text
  rw [hstarts x hx]
  decide

theorem reads_body {type : String} {schema : Schema} {items : List (InstanceTree × List Spelling)}
    (htype : registry.get? type = some schema)
    (hvalid : ∀ x ∈ items, x.1.root.typeName = type ∧ x.1.Valid registry)
    (hspells : ∀ x ∈ items, ∃ own ended,
      x.1.Spells registry (0, "") own ∧ x.2 = own ++ semicolon ended) :
    Reads (body registry) ((.identifier, type) :: block items) anything
      fun read => read.map InstanceTree.plain = (items.map Prod.fst).map InstanceTree.plain := by
  refine reads_token fun t _ htext => reads_token fun _ _ _ => ?_
  refine reads_lift (a := schema) (by rw [Registry.lookup, htext, htype]) ?_
  rw [htext]
  intro tokens rest last ht hrest
  -- The unread tokens are levels enough, as the resources are spelled by some of them.
  have hlevels : (items.flatMap Prod.snd).length ≤ (tokens ++ rest).length + 1 := by
    have hlength := congrArg List.length ht
    rw [List.length_map, List.length_append] at hlength
    rw [List.length_append]
    omega
  rw [instances_eq (Nat.lt_succ_self _)]
  exact reads_instances_within hvalid hspells hlevels _ tokens rest last ht hrest

end Declaration

end ResourceCompiler

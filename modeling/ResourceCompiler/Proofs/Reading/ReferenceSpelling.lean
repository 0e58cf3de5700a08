import ResourceCompiler.Proofs.Reading.SlotSpelling

/-!
How a reference of a type definition can be spelled, and that it is read back from any of its
spellings. Its lines may come in any order that says the same.
-/

namespace ResourceCompiler

open ResourceCompiler.Parser

namespace IdOperator

def mark : IdOperator → Spelling
  | .add => (.plus, "+")
  | .subtract => (.minus, "-")
  | .multiply => (.star, "*")
  | .divide => (.slash, "/")

theorem operator_of_mark (operator : IdOperator) :
    Definition.operator? operator.mark.1 = some operator := by
  cases operator <;> rfl

end IdOperator

/-- Whether tokens spell an operand. A number may look like an id. -/
def IdOperand.Spells : IdOperand → List Spelling → Prop
  | .parent, spelled => spelled = [(.identifier, "id")]
  | .literal n, spelled => 0 ≤ n ∧ (spelled = [(.integer, toString n.toInt.toNat)] ∨
      spelled = [(.resourceId, toString n.toInt.toNat)])

namespace IdMapping

/-- Whether tokens spell operations, each with its operator in front. -/
def SpellsAll : List (IdOperator × IdOperand) → List Spelling → Prop
  | [], spelled => spelled = []
  | (operator, operand) :: rest, spelled => ∃ written others, operand.Spells written ∧
      SpellsAll rest others ∧ spelled = operator.mark :: written ++ others

/-- Whether tokens spell a mapping. A plus at the start may be left out. -/
def Spells (mapping : IdMapping) (spelled : List Spelling) : Prop :=
  mapping.operations ≠ [] ∧ (SpellsAll mapping.operations spelled ∨
    SpellsAll mapping.operations (IdOperator.add.mark :: spelled))

end IdMapping

namespace Definition

variable {spelled : List Spelling} {follow : Option TokenKind → Prop}

theorem reads_mapping_id {n : Int64} (h : 0 ≤ n) {t : Token}
    (ht : t.text = toString n.toInt.toNat) : Reads (mappingId t) [] anything (· = n) :=
  reads_demanded (ht ▸ Text.parse_int64_repr h)

theorem reads_operand {operand : IdOperand} (h : operand.Spells spelled) :
    Reads Definition.operand spelled follow (· = operand) := by
  cases operand with
  | parent =>
    obtain rfl := h
    refine reads_next fun t hkind htext => ?_
    rw [hkind, if_pos (by simp [htext])]
    exact reads_pure rfl
  | literal n =>
    obtain ⟨hn, rfl | rfl⟩ := h
    all_goals
      refine reads_next fun t hkind htext => ?_
      rw [hkind]
      exact (reads_mapping_id hn htext).bind_nothing (fun a ha => reads_pure (by rw [ha]))
        fun _ _ => trivial

/-- An operator is taken if one is next. -/
theorem reads_operator (operator : IdOperator) :
    Reads acceptOperator [operator.mark] follow (· = some operator) := by
  intro tokens rest last ht _
  obtain ⟨t, rfl, hspelled⟩ := List.map_eq_singleton_iff.mp ht
  have hkind : operator? t.kind = some operator := by
    rw [← operator.operator_of_mark, ← hspelled]
    rfl
  exact ⟨some operator, t.location, by simp [acceptOperator, hkind], rfl⟩

theorem reads_no_operator :
    Reads acceptOperator [] (fun k => k.bind operator? = none) (· = none) := by
  intro tokens rest last ht hk
  obtain rfl := List.map_eq_nil_iff.mp ht
  refine ⟨none, last, ?_, rfl⟩
  cases rest with
  | nil => rfl
  | cons t rest =>
    have hkind : operator? t.kind = none := hk
    simp [acceptOperator, hkind]

/-- A round of a mapping. -/
def mappingRound (state : List (IdOperator × IdOperand) × IdOperator) :
    Parser (Round (List (IdOperator × IdOperand) × IdOperator)) := do
  let (operations, operator) := state
  let operations := operations ++ [(operator, ← operand)]
  match ← acceptOperator with
  | some operator => return .again (operations, operator)
  | none => return .done (operations, operator)

theorem progresses_mapping_round (state : List (IdOperator × IdOperand) × IdOperator) :
    Progresses (mappingRound state) :=
  (local_mapping_round state).progresses

/-- The rounds from the operand behind the first operator on. What a round reads includes the
operator of the next one. -/
theorem reads_mapping_rounds {rest : List (IdOperator × IdOperand)} :
    ∀ {done : List (IdOperator × IdOperand)} {operator : IdOperator} {operand : IdOperand}
      {written others : List Spelling}, operand.Spells written → IdMapping.SpellsAll rest others →
      Reads (repeating mappingRound (done, operator)) (written ++ others) (· = some .semicolon)
        (fun result => result.1 = done ++ (operator, operand) :: rest) := by
  induction rest with
  | nil =>
    intro done operator operand written others hwritten hothers
    obtain rfl := hothers
    refine reads_done progresses_mapping_round ?_
    refine (reads_operand hwritten).bind fun a ha => ?_
    refine reads_no_operator.bind_nothing (fun next hnext => ?_) fun k hk => by rw [hk]; rfl
    subst ha hnext
    exact reads_pure ⟨_, rfl, rfl⟩
  | cons next rest ih =>
    intro done operator operand written others hwritten hothers
    obtain ⟨written', others', hwritten', hothers', rfl⟩ := hothers
    have hround : Reads (mappingRound (done, operator)) (written ++ [next.1.mark]) anything
        fun r => ∃ state, r = .again state ∧ state = (done ++ [(operator, operand)], next.1) := by
      refine (reads_operand hwritten).bind fun a ha => ?_
      rw [← List.append_nil [next.1.mark]]
      refine (reads_operator next.1).bind fun found hfound => ?_
      subst ha hfound
      exact reads_pure ⟨_, rfl, rfl⟩
    rw [List.cons_append, List.append_cons]
    refine reads_again anything progresses_mapping_round hround (fun state hstate => ?_)
      fun _ _ => trivial
    subst hstate
    exact (ih hwritten' hothers').mono (fun _ hk => hk) fun result hresult => by simp [hresult]

theorem first_kind_of_operand {operand : IdOperand} (h : operand.Spells spelled)
    (others : List Spelling) (k : Option TokenKind) :
    (((spelled ++ others).head?.map (·.1)).or k).bind operator? = none := by
  cases operand with
  | parent =>
    obtain rfl := h
    rfl
  | literal n => obtain ⟨-, rfl | rfl⟩ := h <;> rfl

theorem reads_id_mapping {mapping : IdMapping} (h : mapping.Spells spelled) :
    Reads idMapping spelled (· = some .semicolon) (· = mapping) := by
  obtain ⟨_ | ⟨⟨operator, operand⟩, rest⟩⟩ := mapping
  · exact absurd rfl h.1
  have hrounds {written others : List Spelling} (hwritten : operand.Spells written)
      (hothers : IdMapping.SpellsAll rest others) : Reads (do
        let (operations, _) ← repeating mappingRound ([], operator)
        return (⟨operations⟩ : IdMapping)) (written ++ others) (· = some .semicolon)
          (· = ⟨(operator, operand) :: rest⟩) := by
    rw [← List.append_nil (written ++ others)]
    refine (reads_mapping_rounds hwritten hothers).bind_before (fun r hr => ?_) fun k hk => hk
    exact reads_pure (by rw [hr]; rfl)
  rcases h.2 with ⟨written, others, hwritten, hothers, rfl⟩ |
    ⟨written, others, hwritten, hothers, hplus⟩
  · rw [List.cons_append, ← List.singleton_append]
    refine (reads_operator operator).bind fun first hfirst => ?_
    subst hfirst
    exact hrounds hwritten hothers
  · obtain ⟨hmark, rfl⟩ := List.cons.inj hplus
    obtain rfl : operator = .add := by cases operator <;> first | rfl | cases hmark
    refine reads_no_operator.bind_nothing (fun first hfirst => ?_)
      fun k _ => first_kind_of_operand hwritten others k
    subst hfirst
    exact hrounds hwritten hothers

/-- A line of a reference. -/
inductive ReferencePart
  | type (name : String)
  | range (low high : Int64)
  | mapping (m : IdMapping)

namespace ReferencePart

def word : ReferencePart → String
  | .type _ => "type"
  | .range _ _ => "valid_id_range"
  | .mapping _ => "id_mapping"

/-- Whether tokens spell what a line says. -/
def Says : ReferencePart → List Spelling → Prop
  | .type name, spelled => spelled = [(.string, name)]
  | .range low high, spelled => 0 ≤ low ∧ low ≤ high ∧
      spelled = [(.resourceId, toString low.toInt.toNat), (.resourceId, toString high.toInt.toNat)]
  | .mapping m, spelled => m.Spells spelled

def Spells (part : ReferencePart) (spelled : List Spelling) : Prop :=
  ∃ said, part.Says said ∧ spelled = line part.word ((.equals, "=") :: said)

def add (r : Reference) : ReferencePart → Reference
  | .type name => { r with targetType := name }
  | .range low high => { r with lowestId := low, highestId := high }
  | .mapping m => { r with mapping := m }

end ReferencePart

theorem reads_reference_item {r : Reference} {part : ReferencePart} (h : part.Spells spelled) :
    Reads (referenceItem r) spelled follow (· = part.add r) := by
  obtain ⟨said, hsaid, rfl⟩ := h
  refine reads_token fun word _ hword => reads_token fun _ _ _ => ?_
  rw [hword]
  cases part with
  | type name =>
    obtain rfl : said = [(.string, name)] := hsaid
    exact reads_ended (reads_text .string name) fun t ht => by rw [ht]; rfl
  | range low high =>
    obtain ⟨hlow, hle, rfl⟩ := hsaid
    refine reads_token fun first _ hfirst => reads_token fun last _ hlast => ?_
    have hhigh : 0 ≤ high := Int64.le_trans hlow hle
    refine (reads_mapping_id hlow hfirst).bind_nothing (fun a ha => ?_)
      fun _ _ => trivial
    refine (reads_mapping_id hhigh hlast).bind_nothing (fun b hb => ?_) fun _ _ => trivial
    subst ha hb
    rw [if_neg (Int64.not_lt.mpr hle)]
    exact reads_end rfl
  | mapping m =>
    exact reads_ended (reads_id_mapping hsaid) fun a ha => by rw [ha]; rfl

end Definition

namespace Reference

/-- Whether tokens spell a reference, by lines that together say what it is. -/
def Spells (r : Reference) (spelled : List Spelling) : Prop :=
  ∃ items : List (Definition.ReferencePart × List Spelling),
    (items.map Prod.fst).foldl Definition.ReferencePart.add (.new r.field) = r ∧
      (∀ x ∈ items, x.1.Spells x.2) ∧ spelled = called r.field ++ block items

/-- What a definition demands of a reference. -/
structure WellFormed (r : Reference) : Prop where
  targetType : r.targetType ≠ ""
  range : r.lowestId = .minValue ∧ r.highestId = .maxValue ∨
    0 ≤ r.lowestId ∧ r.lowestId ≤ r.highestId
  operations : r.mapping.operations ≠ []
  literals : ∀ n operator, (operator, .literal n) ∈ r.mapping.operations → 0 ≤ n

end Reference

namespace Definition

theorem reads_block_head {name : String} {α : Type} {f : String → Parser α} {wanted : α → Prop}
    (hf : Reads (f name) spelled follow wanted) :
    Reads (blockHead >>= f) (called name ++ (.leftBrace, "\x7b") :: spelled) follow wanted := by
  have hhead : Reads blockHead (called name ++ [(.leftBrace, "\x7b")]) anything (· = name) := by
    refine reads_token fun _ _ _ => reads_token fun t _ htext => reads_token fun _ _ _ =>
      reads_token fun _ _ _ => ?_
    exact reads_pure htext
  rw [List.append_cons]
  exact hhead.bind fun a ha => ha ▸ hf

theorem reads_reference {r : Reference} (h : r.Spells spelled) (htarget : r.targetType ≠ "")
    (head : Token) : Reads (reference head) spelled anything (· = r) := by
  obtain ⟨items, hbuilt, hitems, rfl⟩ := h
  refine reads_block_head ?_
  rw [← List.append_nil (_ ++ _)]
  refine (ReadsItems.lines_until_closed
    (fun done r' => r' = done.foldl ReferencePart.add (.new r.field))
    (fun r' => (local_reference_item r').weaken (by decide)) ?_ hitems ?_ rfl _).bind
      fun r' hr' => ?_
  · rintro part _ ⟨said, -, rfl⟩
    rfl
  · rintro done part rest - spelled hpart _ rfl
    rw [List.foldl_append]
    exact reads_reference_item hpart
  · rw [hbuilt] at hr'
    rw [hr', if_neg (by simpa using htarget)]
    exact reads_pure rfl

theorem exists_operand_spelling {operand : IdOperand} (h : ∀ n, operand = .literal n → 0 ≤ n) :
    ∃ spelled, operand.Spells spelled := by
  cases operand with
  | parent => exact ⟨_, rfl⟩
  | literal n => exact ⟨_, h n rfl, .inl rfl⟩

theorem exists_operations_spelling {operations : List (IdOperator × IdOperand)}
    (h : ∀ n operator, (operator, .literal n) ∈ operations → 0 ≤ n) :
    ∃ spelled, IdMapping.SpellsAll operations spelled := by
  induction operations with
  | nil => exact ⟨[], rfl⟩
  | cons operation rest ih =>
    obtain ⟨operator, operand⟩ := operation
    obtain ⟨others, hothers⟩ := ih fun n op hop => h n op (List.mem_cons_of_mem _ hop)
    have hliteral : ∀ n, operand = .literal n → 0 ≤ n :=
      fun n hn => h n operator (hn ▸ List.mem_cons_self)
    obtain ⟨written, hwritten⟩ := exists_operand_spelling hliteral
    exact ⟨_, written, others, hwritten, hothers, rfl⟩

/-- Every reference that a definition admits can be spelled. Of the range nothing is said if it is
as wide as it can be. -/
theorem exists_reference_spelling {r : Reference} (h : r.WellFormed) :
    ∃ spelled, r.Spells spelled := by
  suffices hparts : ∃ parts : List ReferencePart, parts.foldl ReferencePart.add (.new r.field) = r ∧
      ∀ part ∈ parts, ∃ spelled, part.Spells spelled by
    obtain ⟨parts, hbuilt, hparts⟩ := hparts
    obtain ⟨items, rfl, hitems⟩ := exists_spellings hparts
    exact ⟨_, items, hbuilt, hitems, rfl⟩
  obtain ⟨mapping, hmapping⟩ := exists_operations_spelling h.literals
  have htype : ∃ spelled, (ReferencePart.type r.targetType).Spells spelled := ⟨_, _, rfl, rfl⟩
  have hoperations : ∃ spelled, (ReferencePart.mapping r.mapping).Spells spelled :=
    ⟨_, mapping, ⟨h.operations, .inl hmapping⟩, rfl⟩
  rcases h.range with ⟨hlow, hhigh⟩ | ⟨hlow, hle⟩
  · refine ⟨[.type r.targetType, .mapping r.mapping], ?_, by simp [htype, hoperations]⟩
    simp [ReferencePart.add, Reference.new, ← hlow, ← hhigh]
  · have hrange : ∃ spelled, (ReferencePart.range r.lowestId r.highestId).Spells spelled :=
      ⟨_, _, ⟨hlow, hle, rfl⟩, rfl⟩
    exact ⟨[.type r.targetType, .range r.lowestId r.highestId, .mapping r.mapping], rfl,
      by simp [htype, hrange, hoperations]⟩

end Definition

end ResourceCompiler

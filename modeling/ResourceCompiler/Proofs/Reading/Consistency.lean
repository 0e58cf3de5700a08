import ResourceCompiler.Proofs.Reading.Taking
import ResourceCompiler.Proofs.Reading.SlotSpelling

/-!
What can be relied on in a type once its definition was read. The checks lie all over the parsers,
each where what it is about has been read.
-/

namespace ResourceCompiler

open ResourceCompiler.Parser

/-- Kind and size agree, symbols differ, and the default can be stored. -/
structure Slot.Consistent (s : Slot) : Prop where
  size : s.kind.MayTake s.size
  symbols : (s.symbols.map Symbol.name).Nodup
  default : ∀ v ∈ s.default, s.permits v.form = true ∧
    (v.form = .identifier → v.text ∈ s.symbols.map Symbol.name)

structure Field.Consistent (f : Field) : Prop where
  slots_ne : f.slots ≠ []
  slots : ∀ s ∈ f.slots, s.Consistent

structure Reference.Consistent (r : Reference) : Prop where
  target : r.targetType ≠ ""
  range : r.lowestId ≤ r.highestId
  mapping : r.mapping.operations ≠ []

structure Schema.Consistent (s : Schema) : Prop where
  name : s.name ≠ ""
  code : s.code ≠ ""
  fields_ne : s.fields ≠ []
  fields : ∀ f ∈ s.fields, f.Consistent
  field_names : (s.fields.map Field.name).Nodup
  references : ∀ r ∈ s.references, r.Consistent
  reference_fields : (s.references.map Reference.field).Nodup

namespace Definition

variable {α : Type}

theorem yields_locate (location : Location) (r : Except MeaningFault α) :
    Yields (locate location r) (r = .ok ·) := by
  cases r with
  | ok a => exact yields_pure rfl
  | error fault => exact yields_fail _

/-! Slots -/

theorem number_width_ok {type : String} {size : Option Nat} {width : Nat}
    (h : numberWidth type size = .ok width) : width = 1 ∨ width = 2 ∨ width = 4 ∨ width = 8 := by
  obtain ⟨given, -, hgiven⟩ := except_bind_eq_ok.mp h
  split at hgiven
  · cases hgiven
    assumption
  · cases hgiven

theorem fixed_size_ok {type : String} {expected taken : Nat} {size : Option Nat}
    (h : fixedSize type expected size = .ok taken) : taken = expected := by
  unfold fixedSize at h
  split at h
  · split at h <;> cases h
    rfl
  · cases h
    rfl

theorem c_string_sized (length : Nat) : (cString length).MayTake length := by
  by_cases hl : 0 < length
  · exact .inl ⟨hl, by simp [hl]⟩
  · obtain rfl : length = 0 := by omega
    exact .inr ⟨rfl, .inr rfl⟩

theorem p_string_sized (length : Nat) : SlotKind.pascalString.MayTake length := by
  by_cases hl : 0 < length
  · exact .inl hl
  · exact .inr ⟨by omega, .inl rfl⟩

/-- A slot for numbers is as wide as it is told, and that is one of four widths. -/
theorem number_sized {type : String} {size : Option Nat} {kind : SlotKind} {taken : Nat}
    (make : Nat → SlotKind) (hmake : ∀ width, (make width).HasSize width ↔
      width = 1 ∨ width = 2 ∨ width = 4 ∨ width = 8)
    (h : (do let width ← numberWidth type size; return (make width, width)) =
      Except.ok (ε := MeaningFault) (kind, taken)) : kind.MayTake taken := by
  obtain ⟨width, hwidth, hsized⟩ := except_bind_eq_ok.mp h
  cases hsized
  exact .inl ((hmake _).mpr (number_width_ok hwidth))

/-- A slot whose type leaves no choice has the size of its type. -/
theorem fixed_sized {type : String} {expected : Nat} {size : Option Nat} {kind : SlotKind}
    {taken : Nat} (fixed : SlotKind) (hfixed : fixed.HasSize expected)
    (h : (do return (fixed, ← fixedSize type expected size)) =
      Except.ok (ε := MeaningFault) (kind, taken)) : kind.MayTake taken := by
  obtain ⟨size, hsize, hsized⟩ := except_bind_eq_ok.mp h
  cases hsized
  rw [fixed_size_ok hsize]
  exact .inl hfixed

/-- Each type name has a way of its own to come to a size. -/
theorem slot_kind_sized {type : String} {size length : Option Nat} {kind : SlotKind} {taken : Nat}
    (h : slotKind type size length = .ok (kind, taken)) : kind.MayTake taken := by
  unfold slotKind at h
  split at h
  · exact number_sized (.integer · true) (by simp [SlotKind.HasSize]) h
  · exact number_sized (.integer · false) (by simp [SlotKind.HasSize]) h
  · exact number_sized (.integer · false) (by simp [SlotKind.HasSize]) h
  · exact number_sized .bitmask (by simp [SlotKind.HasSize]) h
  · exact fixed_sized .resourceReference rfl h
  · exact fixed_sized .color rfl h
  · obtain ⟨length, -, hsized⟩ := except_bind_eq_ok.mp h
    cases hsized
    exact c_string_sized _
  · cases h
    exact c_string_sized _
  · cases h
    exact p_string_sized _
  · cases h

/-- What is not there already may be put behind the others. -/
theorem nodup_of_new {name : α → String} {known : List α} {a : α} (h : (known.map name).Nodup)
    (hnew : ¬ known.any (name · == name a) = true) : ((known ++ [a]).map name).Nodup := by
  rw [List.map_append, List.nodup_append]
  refine ⟨h, by simp, ?_⟩
  rintro b hb _ ha rfl
  obtain rfl := List.mem_singleton.mp ha
  exact hnew (by simpa using hb)

theorem yields_symbols : Yields symbols fun table => (table.map Symbol.name).Nodup := by
  refine yields_after _ fun _ => yields_until_closed List.nodup_nil fun table h => ?_
  refine yields_after _ fun name => yields_after _ fun _ => yields_after _ fun number =>
    yields_after _ fun _ => ?_
  refine yields_ite (fun _ => yields_fail _) fun hnew => yields_pure ?_
  exact nodup_of_new h hnew

theorem default_of_check {slot : Slot} {value : Value} (h : checkDefault slot value = .ok ()) :
    slot.permits value.form = true ∧
      (value.form = .identifier → value.text ∈ slot.symbols.map Symbol.name) := by
  unfold checkDefault at h
  split at h
  · cases h
  · rename_i hpermits
    refine ⟨by simpa using hpermits, fun hform => ?_⟩
    split at h
    · cases h
    · rename_i hsymbol
      obtain ⟨symbol, hs⟩ : ∃ symbol, slot.symbol? value.text = some symbol := by
        simpa [hform, Option.ne_none_iff_exists'] using hsymbol
      exact List.mem_map.mpr ⟨symbol, List.mem_of_find?_eq_some hs, by
        simpa using List.find?_some hs⟩

/-- The default, if there is one, is the last to be looked at. -/
theorem yields_default {bare : Slot} {default : Option Value} (hsize : bare.kind.MayTake bare.size)
    (hsymbols : (bare.symbols.map Symbol.name).Nodup) (hnone : bare.default = none) :
    Yields (match default with
      | none => pure bare
      | some value => do
        locate value.location (checkDefault bare value)
        return { bare with default := some value }) Slot.Consistent := by
  cases default with
  | none => exact yields_pure ⟨hsize, hsymbols, by simp [hnone]⟩
  | some value =>
    refine (yields_locate _ _).bind fun _ hcheck => yields_pure ⟨hsize, hsymbols, ?_⟩
    rintro v ⟨⟩
    exact default_of_check hcheck

theorem yields_slot (field : String) : Yields (slot field) Slot.Consistent := by
  refine yields_after _ fun _ => yields_after _ fun attributes => yields_after _ fun type =>
    yields_after _ fun offset => ?_
  refine (yields_locate _ _).bind fun sized hsized => yields_after _ fun opens => ?_
  refine yields_ite (fun _ => yields_symbols.bind fun table htable => ?_) fun _ => ?_
  · exact yields_default (slot_kind_sized hsized) htable rfl
  · exact yields_default (slot_kind_sized hsized) List.nodup_nil rfl

/-! Fields -/

/-- An item has its property before the semicolon behind it. -/
theorem yields_ended {p : Parser α} {good : α → Prop} (h : Yields p good) : Yields (do
    let x ← p
    let _ ← ensureKind .semicolon
    return x) good :=
  h.bind fun _ hx => yields_after _ fun _ => yields_pure hx

/-- The slots of a field have what each slot has as it is read. -/
theorem yields_field_items {good : Slot → Prop} (hslot : ∀ field, Yields (slot field) good)
    (name : String) :
    Yields (untilClosed .rightBrace fieldItem ⟨name, false, "", []⟩)
      fun f => ∀ s ∈ f.slots, good s := by
  refine yields_until_closed nofun fun f hf => yields_after _ fun item => ?_
  dsimp only
  split
  · exact yields_ended (yields_pure hf)
  · exact yields_after _ fun _ => yields_ended (yields_pure hf)
  · refine (hslot _).bind fun s hs => yields_ended (yields_pure ?_)
    simpa [or_imp, forall_and, hs] using hf
  · exact yields_ended (yields_fail _)

theorem yields_field_slots {good : Slot → Prop} (hslot : ∀ field, Yields (slot field) good) :
    Yields field fun f => f.slots ≠ [] ∧ ∀ s ∈ f.slots, good s := by
  refine yields_after _ fun start => yields_after _ fun name => ?_
  refine (yields_field_items hslot name).bind fun f hf => ?_
  exact yields_ite (fun _ => yields_fail _) fun hne => yields_pure ⟨by simpa using hne, hf⟩

theorem yields_field : Yields field Field.Consistent :=
  (yields_field_slots yields_slot).mono fun _ h => ⟨h.1, h.2⟩

/-! References -/

/-- Every round of a mapping adds an operation. -/
theorem yields_mapping_round (state : List (IdOperator × IdOperand) × IdOperator) :
    Yields (do
      let (operations, operator) := state
      let operations := operations ++ [(operator, ← operand)]
      match ← acceptOperator with
      | some operator => return Round.again (operations, operator)
      | none => return Round.done (operations, operator)) fun r => r.state.1 ≠ [] := by
  refine yields_after _ fun _ => yields_after _ fun next => ?_
  cases next <;> exact yields_pure (by simp [Round.state])

theorem yields_id_mapping : Yields idMapping fun mapping => mapping.operations ≠ [] := by
  refine yields_after _ fun first => ?_
  have hrounds : Yields (repeating _ ([], first.getD .add)) fun state => state.1 ≠ [] :=
    yields_repeating (yields_mapping_round (_, _)) fun state _ => yields_mapping_round state
  exact hrounds.bind fun _ h => yields_pure h

theorem yields_reference (head : Token) : Yields (reference head) Reference.Consistent := by
  refine yields_after _ fun name => ?_
  have hitems : Yields (untilClosed .rightBrace referenceItem (.new name))
      fun r => r.lowestId ≤ r.highestId ∧ r.mapping.operations ≠ [] := by
    have hany : Int64.minValue ≤ Int64.maxValue := by decide
    refine yields_until_closed ⟨hany, List.cons_ne_nil _ _⟩ fun r hr => ?_
    refine yields_after _ fun item => yields_after _ fun _ => ?_
    dsimp only
    split
    · exact yields_after _ fun _ => yields_ended (yields_pure hr)
    · refine yields_after _ fun first => yields_after _ fun last => yields_after _ fun low =>
        yields_after _ fun high => yields_ite (fun _ => yields_ended (yields_fail _)) fun hle => ?_
      exact yields_ended (yields_pure ⟨by simpa using hle, hr.2⟩)
    · exact yields_id_mapping.bind fun _ hm => yields_ended (yields_pure ⟨hr.1, hm⟩)
    · exact yields_ended (yields_fail _)
  refine hitems.bind fun r hr => yields_ite (fun _ => yields_fail _) fun hne => yields_pure ?_
  exact ⟨by simpa using hne, hr.1, hr.2⟩

/-! Types -/

/-- What holds of a type after any of its lines. -/
structure Growing (s : Schema) : Prop where
  fields : ∀ f ∈ s.fields, f.Consistent
  field_names : (s.fields.map Field.name).Nodup
  references : ∀ r ∈ s.references, r.Consistent
  reference_fields : (s.references.map Reference.field).Nodup

theorem yields_item {s : Schema} (h : Growing s) : Yields (item s) Growing := by
  refine yields_after _ fun word => ?_
  dsimp only
  split
  · exact yields_after _ fun _ => yields_ended (yields_pure { h with })
  · exact yields_after _ fun _ => yields_ended (yields_pure { h with })
  · refine yields_field.bind fun f hf => yields_ite (fun _ => yields_ended (yields_fail _))
      fun hnew => yields_ended (yields_pure ?_)
    exact
      { h with
        fields := by simpa [or_imp, forall_and, hf] using h.fields
        field_names := nodup_of_new h.field_names hnew }
  · refine (yields_reference word).bind fun r hr => yields_ite
      (fun _ => yields_ended (yields_fail _)) fun hnew => yields_ended (yields_pure ?_)
    exact
      { h with
        references := by simpa [or_imp, forall_and, hr] using h.references
        reference_fields := nodup_of_new h.reference_fields hnew }
  · exact yields_ended (yields_fail _)

/-- The fields of a type have what each field has as it is read. -/
theorem yields_schema_fields {good : Field → Prop} (hfield : Yields field good)
    (location : Location) : Yields (schema location) fun s => ∀ f ∈ s.fields, good f := by
  refine yields_after _ fun _ => ?_
  have hitems : Yields (untilClosed .rightBrace item ⟨"", "", [], [], location⟩)
      fun s => ∀ f ∈ s.fields, good f := by
    refine yields_until_closed nofun fun s hs => yields_after _ fun word => ?_
    dsimp only
    split
    · exact yields_after _ fun _ => yields_ended (yields_pure hs)
    · exact yields_after _ fun _ => yields_ended (yields_pure hs)
    · refine hfield.bind fun f hf => yields_ite (fun _ => yields_ended (yields_fail _))
        fun _ => yields_ended (yields_pure ?_)
      simpa [or_imp, forall_and, hf] using hs
    · exact yields_after _ fun _ => yields_ite (fun _ => yields_ended (yields_fail _))
        fun _ => yields_ended (yields_pure hs)
    · exact yields_ended (yields_fail _)
  exact hitems.bind fun s hs => yields_after _ fun _ => yields_pure hs

theorem complete_of_check {s : Schema} (h : checkComplete s = .ok ()) :
    s.name ≠ "" ∧ s.code ≠ "" ∧ s.fields ≠ [] := by
  unfold checkComplete at h
  split at h
  · cases h
  · split at h
    · cases h
    · split at h
      · cases h
      · simp_all

/-- Every definition that is read gives a consistent type. -/
theorem yields_schema (location : Location) : Yields (schema location) Schema.Consistent := by
  refine yields_after _ fun _ => ?_
  have hstart : Growing ⟨"", "", [], [], location⟩ :=
    ⟨nofun, List.nodup_nil, nofun, List.nodup_nil⟩
  refine (yields_until_closed hstart fun _ hs => yields_item hs).bind fun s hs => ?_
  refine (yields_locate _ _).bind fun _ hcheck => yields_pure ?_
  obtain ⟨hname, hcode, hfields⟩ := complete_of_check hcheck
  exact
    { hs with
      name := hname
      code := hcode
      fields_ne := hfields }

end Definition

end ResourceCompiler

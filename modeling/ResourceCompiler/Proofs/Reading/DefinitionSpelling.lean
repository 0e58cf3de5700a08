import ResourceCompiler.Proofs.Reading.ReferenceSpelling

/-!
How a type definition can be spelled, and that it is read back from any of its spellings. The lines
of a block may come in any order that says the same.
-/

namespace ResourceCompiler

open ResourceCompiler.Parser

namespace Definition

variable {spelled : List Spelling} {follow : Option TokenKind → Prop}

/-- What some of the lines add to a list comes in the order of the lines. -/
theorem known_of_fold {ι β γ : Type} {add : β → ι → β} {known : β → List γ} {get : ι → Option γ}
    (h : ∀ b x, known (add b x) = known b ++ (get x).toList) (parts : List ι) (b : β) :
    known (parts.foldl add b) = known b ++ parts.filterMap get := by
  induction parts generalizing b with
  | nil => simp
  | cons x rest ih =>
    rw [List.foldl_cons, ih, h, List.append_assoc, List.filterMap_cons]
    cases get x <;> rfl

/-! Fields -/

/-- A line of a field. -/
inductive FieldPart
  | required
  | deprecated (note : String)
  | value (slot : Slot)

namespace FieldPart

def word : FieldPart → String
  | .required => "required"
  | .deprecated _ => "deprecated"
  | .value _ => "value"

/-- Whether tokens spell what a line of a field says. The note may be left out, or be empty, where
it says no more than the word in front of it. -/
def Says (field : String) : FieldPart → List Spelling → Prop
  | .required, spelled => spelled = []
  | .deprecated note, spelled => note ≠ "" ∧ spelled = called note ∨
      note = "deprecated" ∧ (spelled = [] ∨ spelled = called "")
  | .value slot, spelled => slot.Spells field spelled

def Spells (field : String) (part : FieldPart) (spelled : List Spelling) : Prop :=
  ∃ said, part.Says field said ∧ spelled = line part.word said

def add (f : Field) : FieldPart → Field
  | .required => { f with required := true }
  | .deprecated note => { f with deprecation := note }
  | .value slot => { f with slots := f.slots ++ [slot] }

def slot? : FieldPart → Option Slot
  | .value slot => some slot
  | _ => none

theorem slots_of_fold (parts : List FieldPart) (f : Field) :
    (parts.foldl add f).slots = f.slots ++ parts.filterMap slot? :=
  known_of_fold (fun f part => by cases part <;> simp [add, slot?]) parts f

theorem name_of_fold (parts : List FieldPart) (f : Field) :
    (parts.foldl add f).name = f.name := by
  induction parts generalizing f with
  | nil => rfl
  | cons part rest ih => cases part <;> exact ih _

theorem fold_values (slots : List Slot) (f : Field) :
    (slots.map value).foldl add f = { f with slots := f.slots ++ slots } := by
  induction slots generalizing f with
  | nil => simp
  | cons slot rest ih => simp [ih, add]

end FieldPart

end Definition

namespace Field

/-- The field wherever the defaults of its slots stand. -/
def plain (f : Field) : Field := { f with slots := f.slots.map Slot.plain }

/-- A field before anything is said about it. -/
def new (name : String) : Field := ⟨name, false, "", []⟩

/-- Whether tokens spell a field, by lines that together say what it is. -/
def Spells (f : Field) (spelled : List Spelling) : Prop :=
  ∃ items : List (Definition.FieldPart × List Spelling),
    (items.map Prod.fst).foldl Definition.FieldPart.add (.new f.name) = f ∧
      (∀ x ∈ items, x.1.Spells f.name x.2) ∧ spelled = called f.name ++ block items

/-- Lines for a field. -/
def parts (f : Field) : List Definition.FieldPart :=
  (if f.required then [.required] else []) ++
    (if f.deprecation = "" then [] else [.deprecated f.deprecation]) ++ f.slots.map .value

/-- What a definition demands of a field. -/
structure WellFormed (f : Field) : Prop where
  slots_ne : f.slots ≠ []
  slots : ∀ slot ∈ f.slots, slot.WellFormed

end Field

namespace Definition

theorem reads_deprecation {note name : String} (h : (FieldPart.deprecated note).Says name spelled) :
    Reads deprecation spelled (· = some .semicolon) (· = note) := by
  rcases h with ⟨hne, rfl⟩ | ⟨rfl, rfl | rfl⟩
  · refine reads_accepted fun _ _ _ => reads_token fun t _ htext => reads_token fun _ _ _ => ?_
    rw [htext, if_neg (by simpa using hne)]
    exact reads_pure rfl
  · exact reads_not_accepted (reads_pure rfl) fun k hk => by simp [hk]
  · refine reads_accepted fun _ _ _ => reads_token fun t _ htext => reads_token fun _ _ _ => ?_
    rw [htext]
    exact reads_pure rfl

theorem reads_field_item {f known : Field} {name : String} {part : FieldPart}
    (h : part.Spells name spelled) (hknown : known.name = name) (hf : f.plain = known.plain)
    (hslot : ∀ slot, part = .value slot → slot.WellFormed) :
    Reads (fieldItem f) spelled follow (fun f' => f'.plain = (part.add known).plain) := by
  subst hknown
  obtain ⟨hname, hrequired, hdeprecation, hslots⟩ := Field.mk.inj hf
  obtain ⟨said, hsaid, rfl⟩ := h
  refine reads_token fun word _ hword => ?_
  rw [hword]
  cases part with
  | required =>
    obtain rfl : said = [] := hsaid
    exact reads_end (by simp [Field.plain, FieldPart.add, hname, hdeprecation, hslots])
  | deprecated note =>
    refine reads_ended (reads_deprecation hsaid) fun a ha => ?_
    simp [Field.plain, FieldPart.add, ha, hname, hrequired, hslots]
  | value slot =>
    refine reads_ended (reads_slot (hname ▸ hsaid) (hslot slot rfl)) fun a ha => ?_
    simp [Field.plain, FieldPart.add, ha, hname, hrequired, hdeprecation, hslots]

theorem plain_is_empty {f f' : Field} (h : f'.plain = f.plain) :
    f'.slots.isEmpty = f.slots.isEmpty := by
  have hslots : f'.slots.map Slot.plain = f.slots.map Slot.plain := congrArg Field.slots h
  rw [← List.isEmpty_map, hslots, List.isEmpty_map]

theorem reads_field {f : Field} (h : f.Spells spelled) (hwell : f.WellFormed) :
    Reads field spelled anything (fun f' => f'.plain = f.plain) := by
  obtain ⟨items, hbuilt, hitems, rfl⟩ := h
  have hslots : (items.map Prod.fst).filterMap FieldPart.slot? = f.slots := by
    conv_rhs => rw [← hbuilt, FieldPart.slots_of_fold]
    rfl
  refine reads_peek fun start => reads_block_head ?_
  rw [← List.append_nil (_ ++ _)]
  refine (ReadsItems.lines_until_closed
    (fun done f' => f'.plain = (done.foldl FieldPart.add (.new f.name)).plain)
    (fun f' => (local_field_item f').weaken (by decide)) ?_ hitems ?_ rfl _).bind fun f' hf' => ?_
  · rintro part _ ⟨said, -, rfl⟩
    rfl
  · intro done part rest hsplit spelled hpart f' hf'
    rw [List.foldl_append]
    refine reads_field_item hpart (FieldPart.name_of_fold done _) hf' fun slot hslot =>
      hwell.slots slot ?_
    rw [← hslots, hsplit]
    exact List.mem_filterMap.mpr ⟨part, by simp, by rw [hslot]; rfl⟩
  · rw [hbuilt] at hf'
    rw [plain_is_empty hf', if_neg (by simpa using hwell.slots_ne)]
    exact reads_pure hf'

theorem fold_field_parts (f : Field) : f.parts.foldl FieldPart.add (.new f.name) = f := by
  obtain ⟨name, required, deprecation, slots⟩ := f
  rw [Field.parts, List.foldl_append, List.foldl_append, FieldPart.fold_values]
  by_cases hd : deprecation = "" <;> cases required <;> simp [Field.new, FieldPart.add, hd]

/-- Every field that a definition admits can be spelled. -/
theorem exists_field_spelling {f : Field} (h : f.WellFormed) : ∃ spelled, f.Spells spelled := by
  have hparts : ∀ part ∈ f.parts, ∃ spelled, part.Spells f.name spelled := by
    intro part hpart
    suffices hsaid : ∃ said, part.Says f.name said by
      obtain ⟨said, hsaid⟩ := hsaid
      exact ⟨_, said, hsaid, rfl⟩
    simp only [Field.parts, List.mem_append, List.mem_ite_nil_right, List.mem_ite_nil_left,
      List.mem_singleton, List.mem_map] at hpart
    rcases hpart with (⟨-, rfl⟩ | ⟨hne, rfl⟩) | ⟨slot, hslot, rfl⟩
    · exact ⟨_, rfl⟩
    · exact ⟨_, .inl ⟨hne, rfl⟩⟩
    · exact exists_slot_spelling (h.slots slot hslot) f.name
  obtain ⟨items, hitems, hspelled⟩ := exists_spellings hparts
  exact ⟨_, items, hitems ▸ fold_field_parts f, hspelled, rfl⟩

/-! Types -/

/-- A line of a type. -/
inductive TypePart
  | name (text : String)
  | code (text : String)
  | field (f : Field)
  | reference (r : Reference)

namespace TypePart

def word : TypePart → String
  | .name _ => "name"
  | .code _ => "code"
  | .field _ => "field"
  | .reference _ => "reference"

/-- Whether tokens spell what a line of a type says. -/
def Says : TypePart → List Spelling → Prop
  | .name text, spelled | .code text, spelled => spelled = [(.equals, "="), (.string, text)]
  | .field f, spelled => f.Spells spelled
  | .reference r, spelled => r.Spells spelled

def Spells (part : TypePart) (spelled : List Spelling) : Prop :=
  ∃ said, part.Says said ∧ spelled = line part.word said

def add (s : Schema) : TypePart → Schema
  | .name text => { s with name := text }
  | .code text => { s with code := text }
  | .field f => { s with fields := s.fields ++ [f] }
  | .reference r => { s with references := s.references ++ [r] }

def field? : TypePart → Option Field
  | .field f => some f
  | _ => none

def reference? : TypePart → Option Reference
  | .reference r => some r
  | _ => none

theorem fields_of_fold (parts : List TypePart) (s : Schema) :
    (parts.foldl add s).fields = s.fields ++ parts.filterMap field? :=
  known_of_fold (fun s part => by cases part <;> simp [add, field?]) parts s

theorem references_of_fold (parts : List TypePart) (s : Schema) :
    (parts.foldl add s).references = s.references ++ parts.filterMap reference? :=
  known_of_fold (fun s part => by cases part <;> simp [add, reference?]) parts s

theorem fold_fields (fields : List Field) (s : Schema) :
    (fields.map field).foldl add s = { s with fields := s.fields ++ fields } := by
  induction fields generalizing s with
  | nil => simp
  | cons f rest ih => simp [ih, add]

theorem fold_references (references : List Reference) (s : Schema) :
    (references.map reference).foldl add s =
      { s with references := s.references ++ references } := by
  induction references generalizing s with
  | nil => simp
  | cons r rest ih => simp [ih, add]

end TypePart

end Definition

namespace Schema

/-- The type wherever it is defined. -/
def plain (s : Schema) : Schema :=
  { s with fields := s.fields.map Field.plain, location := .unknown }

/-- A type before anything is said about it. -/
def new (location : Location) : Schema := ⟨"", "", [], [], location⟩

/-- Whether tokens spell the definition of a type, by lines that together say what it is. -/
def Spells (s : Schema) (spelled : List Spelling) : Prop :=
  ∃ items : List (Definition.TypePart × List Spelling),
    (items.map Prod.fst).foldl Definition.TypePart.add (.new s.location) = s ∧
      (∀ x ∈ items, x.1.Spells x.2) ∧ spelled = block items

/-- Lines for a type. -/
def parts (s : Schema) : List Definition.TypePart :=
  [.name s.name, .code s.code] ++ s.fields.map .field ++ s.references.map .reference

/-- What a definition demands of a type. -/
structure WellFormed (s : Schema) : Prop where
  name : s.name ≠ ""
  code : s.code ≠ ""
  fields_ne : s.fields ≠ []
  fields : ∀ f ∈ s.fields, f.WellFormed
  field_names : (s.fields.map Field.name).Nodup
  references : ∀ r ∈ s.references, r.WellFormed
  reference_fields : (s.references.map Reference.field).Nodup

end Schema

namespace Definition

variable {spelled : List Spelling} {follow : Option TokenKind → Prop}

theorem reads_text_assignment (text : String) :
    Reads textAssignment [(.equals, "="), (.string, text)] follow (· = text) :=
  reads_token fun _ _ _ => reads_token fun _ _ htext => reads_pure htext

theorem plain_names {s known : Schema} (h : s.plain = known.plain) :
    s.fields.map Field.name = known.fields.map Field.name := by
  have hfields : s.fields.map Field.plain = known.fields.map Field.plain :=
    congrArg Schema.fields h
  simpa [Function.comp_def, Field.plain] using congrArg (List.map Field.name) hfields

theorem reads_item {s known : Schema} {part : TypePart} (h : part.Spells spelled)
    (hs : s.plain = known.plain)
    (hfield : ∀ f, part = .field f → f.WellFormed ∧ f.name ∉ known.fields.map Field.name)
    (hreference : ∀ r, part = .reference r →
      r.WellFormed ∧ r.field ∉ known.references.map Reference.field) :
    Reads (item s) spelled follow (fun s' => s'.plain = (part.add known).plain) := by
  obtain ⟨hname, hcode, hfields, hreferences, -⟩ := Schema.mk.inj hs
  obtain ⟨said, hsaid, rfl⟩ := h
  refine reads_token fun word _ hword => ?_
  rw [hword]
  cases part with
  | name text =>
    obtain rfl : said = [(.equals, "="), (.string, text)] := hsaid
    refine reads_ended (reads_text_assignment text) fun a ha => ?_
    simp [Schema.plain, TypePart.add, ha, hcode, hfields, hreferences]
  | code text =>
    obtain rfl : said = [(.equals, "="), (.string, text)] := hsaid
    refine reads_ended (reads_text_assignment text) fun a ha => ?_
    simp [Schema.plain, TypePart.add, ha, hname, hfields, hreferences]
  | field f =>
    obtain ⟨hwell, hnew⟩ := hfield f rfl
    refine (reads_field hsaid hwell).bind fun f' hf' => ?_
    have hcalled : f'.name = f.name := (Field.mk.inj hf').1
    rw [← plain_names hs] at hnew
    rw [if_neg (by simpa [hcalled] using hnew)]
    exact reads_end (by simp [Schema.plain, TypePart.add, hf', hname, hcode, hfields, hreferences])
  | reference r =>
    obtain ⟨hwell, hnew⟩ := hreference r rfl
    refine (reads_reference hsaid hwell.targetType word).bind fun r' hr' => ?_
    subst hr'
    rw [← hreferences] at hnew
    rw [if_neg (by simpa using hnew)]
    exact reads_end (by simp [Schema.plain, TypePart.add, hname, hcode, hfields, hreferences])

theorem check_complete_ok {s known : Schema} (hs : s.plain = known.plain) (h : known.WellFormed) :
    checkComplete s = .ok () := by
  obtain ⟨hname, hcode, hfields, -, -⟩ := Schema.mk.inj hs
  have hfields_ne : s.fields ≠ [] := fun hnil => by
    rw [hnil, List.map_nil, eq_comm, List.map_eq_nil_iff] at hfields
    exact h.fields_ne hfields
  rw [checkComplete, if_neg (by simpa [hname] using h.name), if_neg (by simpa [hcode] using h.code),
    if_neg (by simpa using hfields_ne)]

/-- Among parts of which no two have a name in common, a part has none of those in front of it. -/
theorem name_is_new {ι γ : Type} {get : ι → Option γ} {name : γ → String} {done rest : List ι}
    {x : ι} {y : γ} (hnodup : (((done ++ x :: rest).filterMap get).map name).Nodup)
    (hx : get x = some y) : name y ∉ (done.filterMap get).map name := by
  rw [List.filterMap_append, List.map_append, List.nodup_append] at hnodup
  exact fun hy => hnodup.2.2 _ hy _ (by simp [hx]) rfl

/-- A definition is read back from each of its spellings. -/
theorem reads_schema {s : Schema} (h : s.Spells spelled) (hwell : s.WellFormed)
    (location : Location) :
    Reads (schema location) spelled anything (fun s' => s'.plain = s.plain) := by
  obtain ⟨items, hbuilt, hitems, rfl⟩ := h
  have hfields : (items.map Prod.fst).filterMap TypePart.field? = s.fields := by
    conv_rhs => rw [← hbuilt, TypePart.fields_of_fold]
    rfl
  have hreferences : (items.map Prod.fst).filterMap TypePart.reference? = s.references := by
    conv_rhs => rw [← hbuilt, TypePart.references_of_fold]
    rfl
  refine reads_token fun _ _ _ => ?_
  rw [← List.append_nil (_ ++ _)]
  refine (ReadsItems.lines_until_closed
    (fun done s' => s'.plain = (done.foldl TypePart.add (.new s.location)).plain)
    (fun s' => (local_item s').weaken (by decide)) ?_ hitems ?_ rfl _).bind fun s' hs' => ?_
  · rintro part _ ⟨said, -, rfl⟩
    rfl
  · intro done part rest hsplit spelled hpart s' hs'
    rw [List.foldl_append]
    refine reads_item hpart hs' (fun f hf => ?_) fun r hr => ?_
    · have hget : part.field? = some f := hf ▸ rfl
      refine ⟨hwell.fields f (hfields ▸ List.mem_filterMap.mpr ⟨part, by simp [hsplit], hget⟩), ?_⟩
      rw [TypePart.fields_of_fold]
      exact name_is_new (hsplit ▸ hfields ▸ hwell.field_names) hget
    · have hget : part.reference? = some r := hr ▸ rfl
      refine ⟨hwell.references r
        (hreferences ▸ List.mem_filterMap.mpr ⟨part, by simp [hsplit], hget⟩), ?_⟩
      rw [TypePart.references_of_fold]
      exact name_is_new (hsplit ▸ hreferences ▸ hwell.reference_fields) hget
  · rw [hbuilt] at hs'
    exact reads_located (check_complete_ok hs' hwell) (reads_pure hs')

theorem fold_type_parts (s : Schema) : s.parts.foldl TypePart.add (.new s.location) = s := by
  rw [Schema.parts, List.foldl_append, List.foldl_append, TypePart.fold_fields,
    TypePart.fold_references]
  rfl

/-- Every type that a definition admits can be spelled. -/
theorem exists_schema_spelling {s : Schema} (h : s.WellFormed) : ∃ spelled, s.Spells spelled := by
  have hparts : ∀ part ∈ s.parts, ∃ spelled, part.Spells spelled := by
    intro part hpart
    suffices hsaid : ∃ said, part.Says said by
      obtain ⟨said, hsaid⟩ := hsaid
      exact ⟨_, said, hsaid, rfl⟩
    simp only [Schema.parts, List.mem_append, List.mem_cons, List.not_mem_nil, or_false,
      List.mem_map] at hpart
    rcases hpart with ((rfl | rfl) | ⟨f, hf, rfl⟩) | ⟨r, hr, rfl⟩
    · exact ⟨_, rfl⟩
    · exact ⟨_, rfl⟩
    · exact exists_field_spelling (h.fields f hf)
    · exact exists_reference_spelling (h.references r hr)
  obtain ⟨items, hitems, hspelled⟩ := exists_spellings hparts
  exact ⟨_, items, hitems ▸ fold_type_parts s, hspelled, rfl⟩

end Definition

end ResourceCompiler

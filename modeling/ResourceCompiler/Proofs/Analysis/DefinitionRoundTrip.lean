import ResourceCompiler.Proofs.Analysis.Front
import ResourceCompiler.Proofs.Reading.DefinitionSpelling

/-!
A type whose name and code are free is registered by each of its definitions, and the analysis goes
on right behind the definition.
-/

namespace ResourceCompiler

open ResourceCompiler.Parser

namespace Registry

/-- Whether neither the name nor the code of a type is taken. -/
def Admits (r : Registry) (s : Schema) : Prop :=
  r.byName.contains s.name = false ∧ r.owner? s.code = none

theorem register_admitted {r : Registry} {s : Schema} (h : r.Admits s) :
    ∃ r', r.register s = .ok r' ∧ r'.schemas = r.schemas.push s ∧ r'.get? s.name = some s ∧
      r'.owner? s.code = some s := by
  refine ⟨_, by rw [register, h.1, h.2]; rfl, rfl, ?_, ?_⟩ <;>
    simp [get?, owner?, at?]

end Registry

namespace Analysis

variable {s : Analysis}

/-- What a parser makes of tokens that are spelled right, it makes of them in an analysis. -/
theorem parse_reads {α : Type} {p : Parser α} {spelled : List Spelling} {result : α → Prop}
    (hp : Reads p spelled anything result) {tokens rest : List Token}
    (ht : tokens.map Token.spelling = spelled) (hu : s.stream.unread = tokens ++ rest) :
    ∃ a stream, parse p s = (.ok a, { s with stream }) ∧ result a ∧ stream.unread = rest := by
  obtain ⟨a, last, hread, ha⟩ := hp tokens rest s.stream.last ht trivial
  rw [← hu] at hread
  refine ⟨a, _, parse_of_reads hu hread, ha, ?_⟩
  rw [TokenStream.unread_advance, hu, List.drop_left]

/-- Every type that is well formed can be defined, and each of its definitions is read back: the
type is registered, wherever its parts stand, and just what follows the definition is left. -/
theorem definition_read_back {schema : Schema} (h : schema.WellFormed) :
    (∃ spelled, schema.Spells spelled) ∧
      ∀ (w : Surroundings) (s : Analysis) (spelled : List Spelling) (tokens rest : List Token),
        schema.Spells spelled →
        tokens.map Token.spelling = (.directive, "define") :: spelled →
        s.stream.unread = tokens ++ rest →
        s.registry.Admits schema →
        ∃ parsed stream registry,
          directive w s = (.ok (), { s with stream, registry }) ∧ stream.unread = rest ∧
            parsed.plain = schema.plain ∧ s.registry.register parsed = .ok registry ∧
            registry.schemas = s.registry.schemas.push parsed ∧
            registry.get? schema.name = some parsed ∧
            registry.owner? schema.code = some parsed := by
  refine ⟨Definition.exists_schema_spelling h, ?_⟩
  intro w s spelled tokens rest hspells htokens hunread hadmits
  obtain ⟨head, block, rfl, hhead, hblock⟩ := List.map_eq_cons_iff.mp htokens
  have hdirective : [head].map Token.spelling = [(.directive, "define")] := by
    rw [List.map_singleton, hhead]
  obtain ⟨t, behind, hfirst, ht, hbehind⟩ :=
    parse_reads (reads_text .directive "define") hdirective hunread
  obtain ⟨parsed, stream, hsecond, hplain, hstream⟩ :=
    parse_reads (s := { s with stream := behind }) (Definition.reads_schema hspells h t.location)
      hblock hbehind
  obtain ⟨hname, hcode, -⟩ := Schema.mk.inj hplain
  have hadmitted : s.registry.Admits parsed := by
    rw [Registry.Admits, hname, hcode]
    exact hadmits
  obtain ⟨registry, hregister, hpush, hget, howner⟩ := Registry.register_admitted hadmitted
  refine ⟨parsed, stream, registry, ?_, hstream, hplain, hregister, hpush, hname ▸ hget,
    hcode ▸ howner⟩
  rw [directive, Attempt.bind_ok hfirst, runDirective, ht]
  change define t { s with stream := behind } = _
  rw [define, Attempt.bind_ok hsecond]
  change (Attempt.lift (s.registry.register parsed) >>= _) _ = _
  rw [hregister]
  rfl

/-! A type with a slot that is its least number unless something else is said -/

def leastSlot : Slot :=
  ⟨"count", .integer 8 true, 0, 8, [⟨"least", .minValue⟩], some ⟨.identifier, "least", .unknown⟩⟩

def counterType : Schema :=
  ⟨"Counter", "cntr", [⟨"count", true, "", [leastSlot]⟩],
    [⟨"next", "Counter", 0, 5, ⟨[(.add, .parent), (.add, .literal 1)]⟩⟩], .unknown⟩

theorem counter_type_well_formed : counterType.WellFormed := by
  have hslot : leastSlot.WellFormed :=
    { kind := .inl (by decide)
      offset_lt := by decide
      size_lt := by decide
      symbols := by decide
      default := by
        rintro v ⟨⟩
        exact ⟨nofun, rfl, fun _ => by decide⟩ }
  exact
    { name := by decide
      code := by decide
      fields_ne := by decide
      fields := List.forall_mem_singleton.mpr ⟨by decide, List.forall_mem_singleton.mpr hslot⟩
      field_names := by decide
      references := List.forall_mem_singleton.mpr
        { targetType := by decide
          range := .inr (by decide)
          operations := by decide
          literals := by simp }
      reference_fields := by decide }

def slotAttributes : List (Definition.SlotPart × List Spelling) :=
  [(.type "integer", assigned "type" ++ [(.identifier, "integer")]),
    (.default .identifier "least", assigned "default" ++ [(.identifier, "least")]),
    (.size 8, assigned "size" ++ [(.identifier, "quad")]),
    (.offset 0, assigned "offset" ++ [(.integer, "0")])]

def symbolLines : List (Symbol × List Spelling) :=
  [(⟨"least", .minValue⟩,
    assigned "least" ++ [(.minus, "-"), (.integer, "9223372036854775808"), (.semicolon, ";")])]

def slotSpelling : List Spelling :=
  (.leftParen, "(") :: (separated Prod.snd true slotAttributes ++ [(.rightParen, ")")] ++
    block symbolLines)

theorem slot_spelling_spells : leastSlot.Spells "count" slotSpelling := by
  refine ⟨false, true, _, slotAttributes, fun _ => rfl, by decide, ?_,
    .inr ⟨symbolLines, rfl, ?_, rfl⟩, rfl⟩
  · simp only [slotAttributes, List.forall_mem_cons]
    exact ⟨⟨_, rfl, rfl⟩, ⟨_, rfl, rfl⟩, ⟨_, .inr ⟨"quad", by decide, rfl⟩, rfl⟩,
      ⟨_, ⟨by decide, rfl⟩, rfl⟩, nofun⟩
  · simp only [symbolLines, List.forall_mem_cons]
    exact ⟨⟨_, .inl ⟨by decide, rfl⟩, rfl⟩, nofun⟩

def typeLines : List (Definition.TypePart × List Spelling) :=
  [(.code "cntr", line "code" [(.equals, "="), (.string, "cntr")]),
    (.reference ⟨"next", "Counter", 0, 5, ⟨[(.add, .parent), (.add, .literal 1)]⟩⟩,
      line "reference" (called "next" ++ block [
        (Definition.ReferencePart.mapping ⟨[(.add, .parent), (.add, .literal 1)]⟩,
          line "id_mapping"
            [(.equals, "="), (.identifier, "id"), (.plus, "+"), (.resourceId, "1")]),
        (.range 0 5,
          line "valid_id_range" [(.equals, "="), (.resourceId, "0"), (.resourceId, "5")]),
        (.type "Counter", line "type" [(.equals, "="), (.string, "Counter")])])),
    (.name "Counter", line "name" [(.equals, "="), (.string, "Counter")]),
    (.field ⟨"count", true, "", [leastSlot]⟩,
      line "field" (called "count" ++ block [
        (Definition.FieldPart.value leastSlot, line "value" slotSpelling),
        (.required, line "required" [])]))]

theorem type_lines_spell : counterType.Spells (block typeLines) := by
  refine ⟨typeLines, rfl, ?_, rfl⟩
  simp only [typeLines, List.forall_mem_cons]
  refine ⟨⟨_, rfl, rfl⟩, ⟨_, ⟨_, rfl, ?_, rfl⟩, rfl⟩, ⟨_, rfl, rfl⟩,
    ⟨_, ⟨_, rfl, ?_, rfl⟩, rfl⟩, nofun⟩
  · simp only [List.forall_mem_cons]
    refine ⟨⟨_, ⟨by decide, .inr ⟨_, _, rfl, ⟨_, _, ⟨by decide, .inr rfl⟩, rfl, rfl⟩, rfl⟩⟩, rfl⟩,
      ⟨_, ⟨by decide, by decide, rfl⟩, rfl⟩, ⟨_, rfl, rfl⟩, nofun⟩
  · simp only [List.forall_mem_cons]
    exact ⟨⟨_, slot_spelling_spells, rfl⟩, ⟨_, rfl, rfl⟩, nofun⟩

def tokensSpelled (spelled : List Spelling) : List Token :=
  spelled.map fun (kind, text) => ⟨kind, text, ⟨"m", 1⟩⟩

theorem map_spelling_tokens (spelled : List Spelling) :
    (tokensSpelled spelled).map Token.spelling = spelled := by
  simp [tokensSpelled, Token.spelling, Function.comp_def]

/-- The lines come in an order of their own, and a word behind them is still to be read. -/
theorem definition_read_back_counter :
    counterType.WellFormed ∧ ∃ parsed stream registry,
      let tokens := tokensSpelled ((.directive, "define") :: block typeLines)
      let behind := tokensSpelled [(.identifier, "declare")]
      let s := start (tokens ++ behind)
      directive ⟨⟨[], []⟩, []⟩ s = (.ok (), { s with stream, registry }) ∧
        stream.unread = behind ∧ parsed.plain = counterType.plain ∧
        s.registry.register parsed = .ok registry ∧
        registry.schemas = s.registry.schemas.push parsed ∧
        registry.get? "Counter" = some parsed ∧ registry.owner? "cntr" = some parsed :=
  ⟨counter_type_well_formed, (definition_read_back counter_type_well_formed).2 ⟨⟨[], []⟩, []⟩
    _ _ _ _ type_lines_spell (map_spelling_tokens _) rfl ⟨by decide, by decide⟩⟩

end Analysis

end ResourceCompiler

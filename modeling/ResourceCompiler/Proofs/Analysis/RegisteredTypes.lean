import ResourceCompiler.Proofs.Analysis.Blocks
import ResourceCompiler.Proofs.Analysis.Ending
import ResourceCompiler.Proofs.Reading.Consistency

/-!
What can be relied on in the types that an analysis knows. A type becomes known at the end of its
definition, and stays as it is.
-/

namespace ResourceCompiler.Analysis

variable {w : Surroundings} {s t : Analysis} {tokens : List Token}

/-- The types are consistent, and no two share a name or a code. -/
structure WellTyped (r : Registry) : Prop where
  indexed : r.Indexed
  consistent : ∀ schema ∈ r.schemas.toList, schema.Consistent

theorem well_typed_empty : WellTyped .empty := ⟨Registry.indexed_empty, nofun⟩

theorem WellTyped.register {r r' : Registry} {schema : Schema} (h : WellTyped r)
    (hschema : schema.Consistent) (hr : r.register schema = .ok r') : WellTyped r' := by
  refine ⟨h.indexed.register hr, fun t ht => ?_⟩
  rcases (Registry.mem_of_register hr).mp ht with ht | rfl
  · exact h.consistent t ht
  · exact hschema

/-- Only a complete definition changes what is known. -/
theorem registry_of_step (w : Surroundings) (s : Analysis) :
    (step w s).2.registry = s.registry ∨ ∃ location c c' schema,
      Definition.schema location c = (.ok schema, c') ∧
      s.registry.register schema = .ok (step w s).2.registry := by
  rcases hstep : step w s with ⟨e | _, s'⟩
  · left
    rw [(fails_quietly_step w s e s' hstep).same]
  · obtain ⟨block, hblock⟩ := completes_of_step hstep
    cases hblock with
    | output => exact .inl rfl
    | imports => exact .inl rfl
    | define _ _ _ hreads hregisters => exact .inr ⟨_, _, _, _, hreads, hregisters⟩
    | declare => exact .inl rfl

theorem well_typed_step (w : Surroundings) (h : WellTyped s.registry) :
    WellTyped (step w s).2.registry := by
  rcases registry_of_step w s with hsame | ⟨location, c, c', schema, hreads, hregisters⟩
  · rwa [hsame]
  · exact h.register (Definition.yields_schema _ _ _ _ hreads) hregisters

theorem Reached.well_typed (h : Reached w tokens s) : WellTyped s.registry := by
  induction h with
  | start => exact well_typed_empty
  | step _ _ ih => exact well_typed_step w ih

/-- A known type has whatever every type has that is read from a definition. -/
theorem Reached.registered {good : Schema → Prop}
    (hgood : ∀ location, Parser.Yields (Definition.schema location) good) (h : Reached w tokens s) :
    ∀ schema ∈ s.registry.schemas.toList, good schema := by
  induction h with
  | start => exact nofun
  | @step s _ _ ih =>
    rcases registry_of_step w s with hsame | ⟨location, c, c', schema, hreads, hregisters⟩
    · rwa [hsame]
    · intro t ht
      rcases (Registry.mem_of_register hregisters).mp ht with ht | rfl
      · exact ih t ht
      · exact hgood location _ _ _ hreads

/-- The end of a run is one of its states. -/
theorem reached_run (h : Reached w tokens s) : Reached w tokens (run w s).2 := by
  induction s using run.induct w with
  | case1 s hf =>
    rw [run_finished hf]
    exact h
  | case2 s hf s' hstep ih =>
    have hf : s.stream.isFinished = false := by simpa using hf
    have hnext := h.step hf
    rw [hstep] at hnext
    rw [run_block hf hstep]
    exact ih hnext
  | case3 s hf e s' hstep =>
    have hf : s.stream.isFinished = false := by simpa using hf
    have hnext := h.step hf
    rw [hstep] at hnext
    rwa [run_failed hf hstep]

/-- At every point of a run, between two blocks or where just some more tokens have been read, the
known types are consistent, and no two share a name or a code. -/
theorem registered_types_consistent (w : Surroundings) (tokens : List Token) :
    Reached w tokens (run w (start tokens)).2 ∧
    ∀ s t, Reached w tokens s → ReadOn s t →
      (∀ schema ∈ t.registry.schemas.toList, schema.Consistent) ∧
      (t.registry.schemas.toList.map Schema.name).Nodup ∧
      (t.registry.schemas.toList.map Schema.code).Nodup := by
  refine ⟨reached_run .start, fun s t hs ht => ?_⟩
  rw [ht.same]
  have htyped := hs.well_typed
  exact ⟨htyped.consistent, htyped.indexed.names_nodup, htyped.indexed.codes_nodup⟩

end ResourceCompiler.Analysis

import Mathlib
import ResourceCompiler.Proofs.Assembly.Acceptance

/-!
What assembling looks at in an instance. It goes by the fields of the type and looks each of them
up, so two instances that answer alike are assembled alike, whatever the order of their assignments.
-/

namespace ResourceCompiler

/-- Two passes are the same if each step is, on whatever has been made before it. -/
theorem Attempt.fold_congr {σ α β : Type} {step step' : β → α → Attempt σ β} {xs : List α}
    (h : ∀ x ∈ xs, ∀ b, step b x = step' b x) (b : β) : xs.foldlM step b = xs.foldlM step' b := by
  induction xs generalizing b with
  | nil => rfl
  | cons x rest ih =>
    rw [List.foldlM_cons, List.foldlM_cons, h x List.mem_cons_self b]
    exact congrArg _ (funext (ih fun y hy => h y (List.mem_cons_of_mem _ hy)))

/-- A pass fails at one of its steps. -/
theorem Attempt.fold_eq_error {σ α β : Type} {step : β → α → Attempt σ β} {xs : List α} {b : β}
    {s s' : σ} {e : CompileError} (h : xs.foldlM step b s = (.error e, s')) :
    ∃ x ∈ xs, ∃ b s, step b x s = (.error e, s') := by
  induction xs generalizing b s with
  | nil => cases h
  | cons x rest ih =>
    rw [List.foldlM_cons, bind_apply] at h
    rcases hx : step b x s with ⟨e' | b₁, s₁⟩
    · rw [hx] at h
      cases h
      exact ⟨x, List.mem_cons_self, b, s, hx⟩
    · rw [hx] at h
      obtain ⟨y, hy, hfails⟩ := ih h
      exact ⟨y, List.mem_cons_of_mem _ hy, hfails⟩

namespace Instance

variable {i : Instance}

/-- Where a field is assigned once at most, the assignment found for it is the one that it has. -/
theorem assignment_eq_some (h : (i.assignments.map Assignment.field).Nodup) {field : String}
    {a : Assignment} : i.assignment? field = some a ↔ a ∈ i.assignments ∧ a.field = field := by
  constructor
  · intro ha
    exact ⟨List.mem_of_find?_eq_some ha, by simpa using List.find?_some ha⟩
  · rintro ⟨ha, rfl⟩
    obtain ⟨found, hfound⟩ : ∃ found, i.assignment? a.field = some found :=
      Option.ne_none_iff_exists'.mp fun hnone =>
        assignment_eq_none.mp hnone (List.mem_map_of_mem ha)
    have hname : found.field = a.field := by simpa using List.find?_some hfound
    rwa [List.inj_on_of_nodup_map h (List.mem_of_find?_eq_some hfound) ha hname] at hfound

/-- An instance with the assignments in another order. -/
def reorder (i : Instance) (assignments : List Assignment) : Instance :=
  { i with assignments }

theorem assignment_reorder {reordered : List Assignment} (hperm : i.assignments.Perm reordered)
    (h : (i.assignments.map Assignment.field).Nodup) (field : String) :
    (i.reorder reordered).assignment? field = i.assignment? field := by
  have h' : ((i.reorder reordered).assignments.map Assignment.field).Nodup :=
    (hperm.map _).nodup_iff.mp h
  apply Option.ext
  intro a
  rw [assignment_eq_some h, assignment_eq_some h']
  exact and_congr_left' hperm.mem_iff.symm

end Instance

namespace Assembly

variable {disk : FileSystem} {schema : Schema} {i j : Instance} {f : Field} {b : Buffer}

theorem encode_field_congr (hid : j.id = i.id) (hlocation : j.location = i.location)
    (h : j.assignment? f.name = i.assignment? f.name) :
    encodeField disk schema j b f = encodeField disk schema i b f := by
  unfold encodeField
  rw [hid, hlocation, h]

/-- Instances in which the same assignment has no field, or none, are assembled as their fields
are. -/
theorem encode_congr
    (hunknown : j.assignments.find? (fun a => (schema.field? a.field).isNone) =
      i.assignments.find? fun a => (schema.field? a.field).isNone)
    (h : ∀ f ∈ schema.fields, ∀ b, encodeField disk schema j b f = encodeField disk schema i b f) :
    encode disk schema j = encode disk schema i := by
  unfold encode
  rw [hunknown, Attempt.fold_congr h]

theorem find_unknown_eq_none (h : ¬∃ a ∈ i.assignments, schema.field? a.field = none) :
    i.assignments.find? (fun a => (schema.field? a.field).isNone) = none :=
  List.find?_eq_none.mpr fun a ha hnone => h ⟨a, ha, by simpa using hnone⟩

/-- An assignment without a field is reported before anything is done. -/
theorem encode_unknown (disk : FileSystem)
    (h : ∃ a ∈ i.assignments, schema.field? a.field = none) (before : Assembly) :
    ∃ a ∈ i.assignments, schema.field? a.field = none ∧
      encode disk schema i before =
        (.error (.meaning a.location (.unknownField schema.name a.field)), before) := by
  obtain ⟨a, ha, hnone⟩ := h
  obtain ⟨found, hfound⟩ :
      ∃ found, i.assignments.find? (fun a => (schema.field? a.field).isNone) = some found :=
    Option.ne_none_iff_exists'.mp fun hall => List.find?_eq_none.mp hall a ha (by simp [hnone])
  refine ⟨found, List.mem_of_find?_eq_some hfound, by simpa using List.find?_some hfound, ?_⟩
  rw [encode, hfound]
  rfl

/-- Where every assignment has its field, assembling fails at a field of the type. -/
theorem encode_eq_error {before after : Assembly} {e : CompileError}
    (h : encode disk schema i before = (.error e, after)) :
    (∃ a ∈ i.assignments, schema.field? a.field = none) ∨
      ∃ f ∈ schema.fields, ∃ b s, encodeField disk schema i b f s = (.error e, after) := by
  by_cases hunknown : ∃ a ∈ i.assignments, schema.field? a.field = none
  · exact .inl hunknown
  · right
    unfold encode at h
    rw [find_unknown_eq_none hunknown] at h
    dsimp only at h
    rw [Attempt.bind_apply] at h
    split at h
    · cases h
    · rename_i hfails
      cases h
      exact Attempt.fold_eq_error hfails

end Assembly

/-- The order of assignments does not matter: instances with the same assignments are assembled
alike, with the same blob or error, the same files imported and the same reports. Only if there are
assignments without a field can the error be that of another one of them. -/
theorem assignment_order_irrelevant (disk : FileSystem) (schema : Schema) (i : Instance)
    (reordered : List Assignment) (before : Assembly) (hperm : i.assignments.Perm reordered)
    (hdistinct : (i.assignments.map Assignment.field).Nodup) :
    Assembly.encode disk schema (i.reorder reordered) before =
      Assembly.encode disk schema i before ∨
    ∃ a ∈ i.assignments, ∃ b ∈ i.assignments,
      schema.field? a.field = none ∧ schema.field? b.field = none ∧
      Assembly.encode disk schema i before =
        (.error (.meaning a.location (.unknownField schema.name a.field)), before) ∧
      Assembly.encode disk schema (i.reorder reordered) before =
        (.error (.meaning b.location (.unknownField schema.name b.field)), before) := by
  by_cases hunknown : ∃ a ∈ i.assignments, schema.field? a.field = none
  · right
    -- Each order reports the first assignment without a field that it comes to.
    obtain ⟨a, ha, hnone, hi⟩ := Assembly.encode_unknown disk hunknown before
    have hreordered : ∃ b ∈ (i.reorder reordered).assignments, schema.field? b.field = none :=
      ⟨a, hperm.mem_iff.mp ha, hnone⟩
    obtain ⟨b, hb, hnone', hj⟩ := Assembly.encode_unknown disk hreordered before
    exact ⟨a, ha, b, hperm.mem_iff.mpr hb, hnone, hnone', hi, hj⟩
  · left
    have hreordered : ¬∃ a ∈ (i.reorder reordered).assignments, schema.field? a.field = none :=
      fun ⟨a, ha, hnone⟩ => hunknown ⟨a, hperm.mem_iff.mpr ha, hnone⟩
    have hsame : Assembly.encode disk schema (i.reorder reordered) =
        Assembly.encode disk schema i := by
      refine Assembly.encode_congr ?_ fun f _ b => ?_
      · rw [Assembly.find_unknown_eq_none hunknown, Assembly.find_unknown_eq_none hreordered]
      · exact Assembly.encode_field_congr rfl rfl
          (Instance.assignment_reorder hperm hdistinct f.name)
    rw [hsame]

theorem assignment_order_irrelevant_window :
    Assembly.encode (.fresh []) windowType (window.reorder window.assignments.reverse)
      (.start #[]) = Assembly.encode (.fresh []) windowType window (.start #[]) := by
  have hknown : ∀ a ∈ window.assignments, windowType.field? a.field ≠ none := by decide +kernel
  refine (assignment_order_irrelevant _ _ _ _ _ window.assignments.reverse_perm.symm
    (by decide)).resolve_right ?_
  rintro ⟨a, ha, -, -, hnone, -⟩
  exact hknown a ha hnone

end ResourceCompiler

import ResourceCompiler.Proofs.Assembly.Storing

/-!
What assembling reports. Nothing but a deprecated field is reported while instances are encoded, so
the warnings of an instance follow from its type alone.
-/

namespace ResourceCompiler

namespace Assembly

/-- If a part of assembling succeeds, it has reported just these diagnostics, in this order. -/
def Reports {α : Type} (part : Attempt Assembly α) (ds : List Diagnostic) : Prop :=
  ∀ ⦃before after : Assembly⦄ ⦃a : α⦄, part before = (.ok a, after) →
    after.diagnostics.toList = before.diagnostics.toList ++ ds

namespace Reports

variable {α β : Type} {ds es : List Diagnostic}

theorem pure (a : α) : Reports (pure a) [] := by
  intro before after _ h
  cases h
  exact (List.append_nil _).symm

theorem fail (e : CompileError) (ds : List Diagnostic) : Reports (.fail e : Attempt _ α) ds := nofun

theorem lift (r : Except CompileError α) : Reports (.lift r) [] := by
  cases r with
  | error e => exact .fail e []
  | ok a => exact .pure a

theorem modify {f : Assembly → Assembly} (h : ∀ a, (f a).diagnostics = a.diagnostics) :
    Reports (.modify f) [] := by
  intro before after _ hrun
  cases hrun
  rw [h, List.append_nil]

theorem bind {first : Attempt Assembly α} {next : α → Attempt Assembly β}
    (hfirst : Reports first ds) (hnext : ∀ a, Reports (next a) es) :
    Reports (first >>= next) (ds ++ es) := by
  intro before after b h
  obtain ⟨a, between, h₁, h₂⟩ := Attempt.bind_eq_ok.mp h
  rw [hnext a h₂, hfirst h₁, List.append_assoc]

theorem bind_quiet {first : Attempt Assembly α} {next : α → Attempt Assembly β}
    (hfirst : Reports first ds) (hnext : ∀ a, Reports (next a) []) :
    Reports (first >>= next) ds :=
  List.append_nil ds ▸ hfirst.bind hnext

/-- Over a list the reports of the steps stand one after the other. -/
theorem fold {step : β → α → Attempt Assembly β} {said : α → List Diagnostic}
    (hstep : ∀ b x, Reports (step b x) (said x)) (xs : List α) (b : β) :
    Reports (xs.foldlM step b) (xs.flatMap said) := by
  induction xs generalizing b with
  | nil => exact .pure b
  | cons x rest ih =>
    rw [List.foldlM_cons, List.flatMap_cons]
    exact (hstep b x).bind ih

theorem fold_quiet {step : β → α → Attempt Assembly β} (hstep : ∀ b x, Reports (step b x) [])
    (xs : List α) (b : β) : Reports (xs.foldlM step b) [] := by
  have h := fold hstep xs b
  rwa [List.flatMap_eq_nil_iff.mpr fun _ _ => rfl] at h

theorem report (d : Diagnostic) : Reports (report d) [d] := by
  intro before after _ h
  cases h
  exact Array.toList_push

theorem report_all (ds : List Diagnostic) : Reports (ds.forM Assembly.report) ds := by
  induction ds with
  | nil => exact .pure ()
  | cons d rest ih => exact (report d).bind fun _ => ih

end Reports

theorem resolve_reports (disk : FileSystem) (value : Value) (id : Int64) :
    Reports (resolve disk value id) [] := by
  intro before after file h
  obtain ⟨_, _, rfl⟩ := resolve_eq_ok.mp h
  exact (List.append_nil _).symm

theorem encode_value_reports (disk : FileSystem) (id : Int64) (b : Buffer) (slot : Slot)
    (value : Value) : Reports (encodeValue disk id b slot value) [] := by
  unfold encodeValue
  split
  · refine (resolve_reports disk value id).bind_quiet fun file => ?_
    refine (Reports.lift _).bind_quiet fun blob => ?_
    refine Reports.bind_quiet (.modify fun _ => ?_) fun _ => .pure blob
    rfl
  · exact .lift _

theorem encode_defaults_reports (disk : FileSystem) (id : Int64) (b : Buffer)
    (slots : List Slot) : Reports (encodeDefaults disk id b slots) [] := by
  refine .fold_quiet (fun b slot => ?_) slots b
  split
  · exact encode_value_reports disk id b slot _
  · exact .pure b

theorem encode_values_reports (disk : FileSystem) (id : Int64) (field : String) (b : Buffer)
    (entries : List (Slot × Value)) : Reports (encodeValues disk id field b entries) [] := by
  refine .fold_quiet (fun b entry => ?_) entries b
  dsimp only
  split
  · exact encode_value_reports disk id b entry.1 entry.2
  · exact .fail _ _

end Assembly

namespace Instance

/-- The warning that a deprecated field has, where it is assigned and else where the instance
stands. -/
def deprecation (i : Instance) (schema : Schema) (f : Field) : Diagnostic :=
  .warning .deprecatedField
    ("field '" ++ f.name ++ "' of " ++ schema.name ++ " is deprecated: " ++ f.deprecation)
    (((i.assignment? f.name).map (·.location)).getD i.location)

/-- The warnings of an instance: one for each deprecated field of its type. -/
def deprecations (i : Instance) (schema : Schema) : List Diagnostic :=
  (schema.fields.filter Field.isDeprecated).map (i.deprecation schema)

theorem deprecations_eq (i : Instance) (schema : Schema) : i.deprecations schema =
    schema.fields.flatMap fun f => if f.isDeprecated then [i.deprecation schema f] else [] := by
  unfold deprecations
  induction schema.fields with
  | nil => rfl
  | cons f rest ih =>
    rw [List.flatMap_cons, ← ih, List.filter_cons]
    split <;> rfl

end Instance

namespace Assembly

theorem report_deprecated_reports {schema : Schema} {i : Instance} {f : Field}
    {location : Location}
    (h : ((i.assignment? f.name).map (·.location)).getD i.location = location) :
    Reports (reportDeprecated schema f location)
      (if f.isDeprecated then [i.deprecation schema f] else []) := by
  subst h
  unfold reportDeprecated
  split
  · exact .report _
  · exact .pure ()

theorem encode_field_reports (disk : FileSystem) (schema : Schema) (i : Instance) (b : Buffer)
    (f : Field) : Reports (encodeField disk schema i b f)
      (if f.isDeprecated then [i.deprecation schema f] else []) := by
  have hroom : Reports (Attempt.lift (makeRoom f b)) [] := .lift _
  refine hroom.bind fun b => ?_
  split
  · rename_i hnone
    refine (report_deprecated_reports (by rw [hnone]; rfl)).bind_quiet fun _ => ?_
    split
    · exact .fail _ _
    · exact encode_defaults_reports ..
  · rename_i assignment hsome
    refine (report_deprecated_reports (by rw [hsome]; rfl)).bind_quiet fun _ => ?_
    split
    · exact .fail _ _
    · exact encode_values_reports ..

/-- An instance that is encoded has all its deprecated fields reported, in the order of its type. -/
theorem encode_reports (disk : FileSystem) (schema : Schema) (i : Instance) :
    Reports (encode disk schema i) (i.deprecations schema) := by
  unfold encode
  split
  · exact .fail _ _
  · rw [Instance.deprecations_eq]
    exact (Reports.fold (encode_field_reports disk schema i) _ _).bind_quiet fun _ => .pure _

end Assembly

end ResourceCompiler

import ResourceCompiler.Proofs.Analysis.DefinitionRoundTrip
import ResourceCompiler.Proofs.Analysis.RegisteredTypes
import ResourceCompiler.Proofs.Assembly.Agreement
import ResourceCompiler.Proofs.Reading.Defaults

/-!
Defaults of defined types. A definition sees to the form of a default and not to its number, so
leaving a field out is the same as assigning its defaults, and can fail as that can.
-/

namespace ResourceCompiler

namespace Field

/-- The defaults of the slots that have one. -/
def defaults (f : Field) : List Value := f.slots.filterMap Slot.default

/-- No default of the field is a file reference. -/
def PlainDefaults (f : Field) : Prop :=
  ∀ slot ∈ f.slots, ∀ v ∈ slot.default, v.form ≠ .fileReference

/-- Every default of the field fits its slot. -/
def DefaultsFit (f : Field) : Prop := ∀ slot ∈ f.slots, ∀ v ∈ slot.default, slot.Fits v

/-- The slots of the field and the texts that are their defaults end where a buffer can hold
them. -/
structure InReach (f : Field) : Prop where
  slots : ∀ slot ∈ f.slots, slot.InReach
  defaults : ∀ slot ∈ f.slots, ∀ v ∈ slot.default, slot.TextInReach v

instance (f : Field) : Decidable f.InReach :=
  decidable_of_iff ((∀ slot ∈ f.slots, slot.InReach) ∧
    ∀ slot ∈ f.slots, ∀ v ∈ slot.default, slot.TextInReach v)
    ⟨fun ⟨slots, defaults⟩ => ⟨slots, defaults⟩, fun h => ⟨h.slots, h.defaults⟩⟩

instance (f : Field) : Decidable f.PlainDefaults :=
  inferInstanceAs (Decidable (∀ slot ∈ f.slots, _))

instance (f : Field) : Decidable f.DefaultsFit :=
  inferInstanceAs (Decidable (∀ slot ∈ f.slots, _))

end Field

/-! Fields that are left out -/

namespace Assembly

variable {disk : FileSystem} {id : Int64} {b : Buffer} {schema : Schema} {i j : Instance}
  {f : Field}

/-- Defaults are written as the same values are if they were assigned. -/
theorem encode_values_defaults {slots : List Slot} (field : String)
    (hpermits : ∀ slot ∈ slots, ∀ v ∈ slot.default, slot.permits v.form = true)
    (hall : ∀ slot ∈ slots, slot.default.isSome = true) :
    encodeValues disk id field b (slots.zip (slots.filterMap Slot.default)) =
      encodeDefaults disk id b slots := by
  induction slots generalizing b with
  | nil => rfl
  | cons slot rest ih =>
    rw [List.forall_mem_cons] at hpermits hall
    obtain ⟨v, hv⟩ := Option.isSome_iff_exists.mp hall.1
    unfold encodeValues encodeDefaults at ih ⊢
    rw [List.filterMap_cons_some hv, List.zip_cons_cons, List.foldlM_cons, List.foldlM_cons]
    dsimp only
    rw [hv, if_pos (hpermits.1 v hv)]
    exact congrArg _ (funext fun b => ih hpermits.2 hall.2)

theorem report_current (hcurrent : f.isDeprecated = false) (location : Location) :
    reportDeprecated schema f location = pure () :=
  if_neg (by simp [hcurrent])

theorem encode_field_defaults (location : Location) (hid : j.id = i.id)
    (hassigned : j.assignment? f.name = some ⟨f.name, f.defaults, location⟩)
    (homitted : i.assignment? f.name = none) (hoptional : f.required = false)
    (hcurrent : f.isDeprecated = false)
    (hpermits : ∀ slot ∈ f.slots, ∀ v ∈ slot.default, slot.permits v.form = true)
    (hall : ∀ slot ∈ f.slots, slot.default.isSome = true) :
    encodeField disk schema j b f = encodeField disk schema i b f := by
  have hcount : f.defaults.length = f.slots.length := List.filterMap_length_eq_length.mpr hall
  have hoptional : ¬f.required = true := by simp [hoptional]
  unfold encodeField
  rw [hassigned, homitted, hid]
  dsimp only
  refine congrArg (Attempt.lift (makeRoom f b) >>= ·) (funext fun room => ?_)
  rw [report_current hcurrent, report_current hcurrent, if_neg (not_not.mpr hcount),
    if_neg hoptional, Field.defaults, encode_values_defaults f.name hpermits hall]

end Assembly

namespace Instance

variable {i : Instance} {a : Assignment}

theorem assignment_append (field : String) :
    ({ i with assignments := i.assignments ++ [a] } : Instance).assignment? field =
      (i.assignment? field).or (if a.field = field then some a else none) := by
  unfold assignment?
  rw [List.find?_append, List.find?_singleton]
  simp

end Instance

/-- An optional field of a defined type can as well be assigned its defaults, if each of its slots
has one. Whatever has been done before and is on the disk, assembling ends alike and leaves the same
files and reports behind. Only a deprecated field is reported elsewhere. -/
theorem omitting_assigns_defaults (w : Surroundings) (tokens : List Token) (s : Analysis)
    (hs : Analysis.Reached w tokens s) (schema : Schema)
    (hschema : schema ∈ s.registry.schemas.toList) (f : Field) (hf : f ∈ schema.fields)
    (hoptional : f.required = false) (hcurrent : f.isDeprecated = false)
    (hall : ∀ slot ∈ f.slots, slot.default.isSome = true) (i : Instance)
    (homitted : i.assignment? f.name = none) (location : Location) :
    ∃ assigned, i.assign ⟨f.name, f.defaults, location⟩ = .ok assigned ∧
      ∀ disk before, Assembly.encode disk schema assigned before =
        Assembly.encode disk schema i before := by
  have hconsistent := hs.well_typed.consistent schema hschema
  have hpermits : ∀ slot ∈ f.slots, ∀ v ∈ slot.default, slot.permits v.form = true :=
    fun slot hslot => ((hconsistent.fields f hf).slots slot hslot).proper.default
  have hknown : schema.field? f.name ≠ none := fun hnone =>
    Schema.field_eq_none.mp hnone ⟨f, hf, rfl⟩
  refine ⟨_, Instance.assign_eq_ok.mpr ⟨Instance.assignment_eq_none.mp homitted, rfl⟩,
    fun disk before => ?_⟩
  refine congrFun (Assembly.encode_congr ?_ fun g hg b => ?_) before
  · simp [List.find?_append, hknown]
  · by_cases hname : g.name = f.name
    -- No other field of the type has this name, so no other one finds the new assignment.
    · obtain rfl := List.inj_on_of_nodup_map hconsistent.field_names hg hf hname
      refine Assembly.encode_field_defaults location rfl ?_ homitted hoptional hcurrent hpermits
        hall
      rw [Instance.assignment_append, homitted, if_pos rfl]
      rfl
    · refine Assembly.encode_field_congr rfl rfl ?_
      rw [Instance.assignment_append, if_neg (Ne.symm hname), Option.or_none]

/-! A type of which only one default fits -/

/-- A field of one slot, and the line that defines it. -/
def gaugeField (slot : Slot) : Field := ⟨slot.name, false, "", [slot]⟩

def gaugeLine (name : String) (attributes : List (String × Spelling)) (symbols : List Spelling) :
    Unit × List Spelling :=
  let spelled := Parser.separated (fun (key, value) => assigned key ++ [value]) false attributes
  ((), line "field" (called name ++ block
    [((), line "value" ((.leftParen, "(") :: (spelled ++ (.rightParen, ")") :: symbols)))]))

def levelSlot : Slot :=
  ⟨"level", .integer 1 false, 0, 1, [], some ⟨.integer, "300", ⟨"m", 1⟩⟩⟩

def markSlot : Slot :=
  ⟨"mark", .integer 1 false, 1, 1, [], some ⟨.integer, "255", ⟨"m", 1⟩⟩⟩

def ownerSlot : Slot :=
  ⟨"owner", .resourceReference, 2, 2, [], some ⟨.resourceId, "40000", ⟨"m", 1⟩⟩⟩

def gradeSlot : Slot :=
  ⟨"grade", .integer 1 true, 4, 1, [⟨"high", 300⟩], some ⟨.identifier, "high", ⟨"m", 1⟩⟩⟩

def labelSlot : Slot :=
  ⟨"label", .cString (some 3), 5, 3, [⟨"blank", 0⟩], some ⟨.identifier, "blank", ⟨"m", 1⟩⟩⟩

def gaugeType : Schema :=
  ⟨"Gauge", "GAGE", [levelSlot, markSlot, ownerSlot, gradeSlot, labelSlot].map gaugeField, [],
    ⟨"m", 1⟩⟩

def gaugeSource : List Token :=
  let symbol (name number : String) : List Spelling :=
    block [((), line name [(.equals, "="), (.integer, number)])]
  Analysis.tokensSpelled ((.directive, "define") :: block [
    ((), line "name" [(.equals, "="), (.string, "Gauge")]),
    ((), line "code" [(.equals, "="), (.string, "GAGE")]),
    gaugeLine "level" [("offset", .integer, "0"), ("size", .identifier, "byte"),
      ("type", .identifier, "unsigned"), ("default", .integer, "300")] [],
    gaugeLine "mark" [("offset", .integer, "1"), ("size", .identifier, "byte"),
      ("type", .identifier, "unsigned"), ("default", .integer, "255")] [],
    gaugeLine "owner" [("offset", .integer, "2"), ("type", .identifier, "resource_reference"),
      ("default", .resourceId, "40000")] [],
    gaugeLine "grade" [("offset", .integer, "4"), ("size", .identifier, "byte"),
      ("type", .identifier, "integer"), ("default", .identifier, "high")] (symbol "high" "300"),
    gaugeLine "label" [("offset", .integer, "5"), ("length", .integer, "3"),
      ("type", .identifier, "string"), ("default", .identifier, "blank")] (symbol "blank" "0")])

/-- What is known once the definition has been read. -/
def gaugeKnown : Analysis := (Analysis.step ⟨⟨[], []⟩, []⟩ (Analysis.start gaugeSource)).2

theorem reached_gauge : Analysis.Reached ⟨⟨[], []⟩, []⟩ gaugeSource gaugeKnown :=
  .step .start (by decide +kernel)

theorem gauge_registered : gaugeKnown.registry.schemas.toList = [gaugeType] := by
  decide +kernel

/-- A gauge that leaves its mark out. -/
def gauge : Instance :=
  let assignment (field : String) (form : ValueForm) (text : String) : Assignment :=
    ⟨field, [⟨form, text, .unknown⟩], .unknown⟩
  ⟨"Gauge", 1, "", [assignment "level" .integer "7", assignment "owner" .resourceId "128",
    assignment "grade" .percentage "9", assignment "label" .string "ab"], .unknown⟩

theorem omitting_assigns_defaults_gauge :
    ∃ assigned, gauge.assign ⟨"mark", [⟨.integer, "255", ⟨"m", 1⟩⟩], .unknown⟩ = .ok assigned ∧
      Assembly.encode (.fresh []) gaugeType assigned (.start #[]) =
        Assembly.encode (.fresh []) gaugeType gauge (.start #[]) ∧
      (blobOf gaugeType gauge).map (·.data.toList) = some [7, 255, 0, 128, 9, 97, 98, 0] := by
  obtain ⟨assigned, hassign, hsame⟩ := omitting_assigns_defaults _ _ _ reached_gauge gaugeType
    (gauge_registered ▸ List.mem_singleton_self _) (gaugeField markSlot) (by decide) rfl
    (by decide) (by decide) gauge (by decide) .unknown
  exact ⟨assigned, hassign, hsame _ _, by decide +kernel⟩

/-! Defaults that do not fit -/

theorem Slot.Consistent.symbol_of_default {slot : Slot} (h : slot.Consistent) {v : Value}
    (hv : v ∈ slot.default) (hform : v.form = .identifier) :
    ∃ symbol, slot.symbol? v.text = some symbol := by
  obtain ⟨symbol, hsymbol, hname⟩ := List.mem_map.mp ((h.default v hv).2 hform)
  refine Option.ne_none_iff_exists'.mp fun hnone => ?_
  exact List.find?_eq_none.mp hnone symbol hsymbol (by simpa using hname)

/-- A text is cut to its slot, and a colour that was read is in range. -/
theorem Slot.fits_of_painted {slot : Slot} {v : Value} (h : v.Painted)
    (hform : v.form = .string ∨ v.form = .color) : slot.Fits v := by
  unfold Fits Represents
  rcases hform with hform | hform
  · rw [hform]
    trivial
  · obtain ⟨n, hn, htext⟩ := h hform
    have hlimit : (n : Int) < Text.literalLimit := by
      unfold Text.literalLimit
      omega
    rw [hform, htext]
    exact ⟨n, Text.parse_integer_repr hlimit, by unfold IsColor; omega⟩

namespace Assembly

variable {disk : FileSystem} {id : Int64} {b : Buffer} {slot : Slot} {value : Value}
  {schema : Schema} {i : Instance} {f : Field}

theorem encode_value_eq_ok_iff (h : slot.Proper) (hp : slot.permits value.form = true)
    (hplain : value.form ≠ .fileReference) (hslot : slot.InReach)
    (htext : slot.TextInReach value) (before : Assembly) :
    (∃ b', encodeValue disk id b slot value before = (.ok b', before)) ↔ slot.Fits value := by
  have hdecides := encode_value_decides disk id b h hp hplain hslot htext fun _ _ => trivial
  rw [← hdecides.succeeds_iff before, encode_value_plain hplain]
  simp [Attempt.lift_eq_ok]

theorem encode_omitted_eq_ok_iff (disk : FileSystem) (b : Buffer) (hf : f ∈ schema.fields)
    (hproper : ∀ slot ∈ f.slots, slot.Proper) (hoptional : f.required = false)
    (homitted : i.assignment? f.name = none) (hplain : f.PlainDefaults) (hreach : f.InReach)
    (before : Assembly) :
    (∃ b' after, encodeField disk schema i b f before = (.ok b', after)) ↔ f.DefaultsFit := by
  have hoptional : ¬f.required = true := by simp [hoptional]
  have hstored : i.Plain f := by
    intro _ entry hentry
    obtain ⟨hslot, hvalue⟩ := (Instance.mem_valued_contents_unassigned homitted).mp hentry
    exact hplain _ hslot _ hvalue
  have hreached : i.InReach f := by
    refine ⟨hreach.slots, fun entry hentry => ?_⟩
    obtain ⟨hslot, hvalue⟩ := (Instance.mem_valued_contents_unassigned homitted).mp hentry
    exact hreach.defaults _ hslot _ hvalue
  rw [(encode_field_decides hf hproper hstored hreached).succeeds_iff before,
    Instance.provides_unassigned homitted hoptional]
  exact Iff.rfl

end Assembly

/-- Of a defined type, a default is encoded exactly if it fits its slot, wherever a buffer can hold
the bytes of the slot. A text or a colour always fits and a word always is a symbol, but a number
may be out of range. So a field that is left out is written exactly if its defaults fit, and then it
is never what makes assembling fail. -/
theorem default_encoded_iff_fits (w : Surroundings) (tokens : List Token) (s : Analysis)
    (hs : Analysis.Reached w tokens s) (schema : Schema)
    (hschema : schema ∈ s.registry.schemas.toList) (f : Field) (hf : f ∈ schema.fields)
    (disk : FileSystem) (i : Instance) :
    (∀ slot ∈ f.slots, ∀ v ∈ slot.default, v.form ≠ .fileReference →
      (slot.InReach → slot.TextInReach v → ∀ b before,
        (∃ b', Assembly.encodeValue disk i.id b slot v before = (.ok b', before)) ↔
          slot.Fits v) ∧
      (v.form = .string ∨ v.form = .color → slot.Fits v) ∧
      (v.form = .identifier → ∃ symbol, slot.symbol? v.text = some symbol)) ∧
    (f.required = false → i.assignment? f.name = none → f.PlainDefaults → f.InReach →
      (∀ b before, (∃ b' after, Assembly.encodeField disk schema i b f before = (.ok b', after)) ↔
        f.DefaultsFit) ∧
      (f.DefaultsFit → ∀ before e after,
        Assembly.encode disk schema i before = (.error e, after) →
        (∃ a ∈ i.assignments, schema.field? a.field = none) ∨
        ∃ g ∈ schema.fields, g ≠ f ∧
          ∃ b s, Assembly.encodeField disk schema i b g s = (.error e, after))) := by
  have hslots := (hs.well_typed.consistent schema hschema).fields f hf |>.slots
  have hpainted := hs.registered Definition.yields_painted_defaults schema hschema f hf
  have hproper : ∀ slot ∈ f.slots, slot.Proper := fun slot hslot => (hslots slot hslot).proper
  refine ⟨fun slot hslot v hv hplain => ⟨fun hreach htext b before => ?_, ?_, ?_⟩,
    fun hoptional homitted hplain hreach => ?_⟩
  · have hpermits := (hproper slot hslot).default v hv
    exact Assembly.encode_value_eq_ok_iff (hproper slot hslot) hpermits hplain hreach htext before
  · exact Slot.fits_of_painted (hpainted slot hslot v hv)
  · exact (hslots slot hslot).symbol_of_default hv
  · have hwritten (b : Buffer) (before : Assembly) :=
      Assembly.encode_omitted_eq_ok_iff disk b hf hproper hoptional homitted hplain hreach before
    refine ⟨hwritten, fun hfit before e after hfails => ?_⟩
    refine (Assembly.encode_eq_error hfails).imp_right fun ⟨g, hg, b, s, hfails⟩ => ?_
    refine ⟨g, hg, ?_, b, s, hfails⟩
    -- The field itself is written wherever the buffer and the state have come to.
    rintro rfl
    obtain ⟨_, _, hok⟩ := (hwritten b s).mpr hfit
    rw [hfails] at hok
    cases hok

/-- A gauge that leaves everything out. -/
def silentGauge : Instance := ⟨"Gauge", 1, "", [], .unknown⟩

/-- The greatest number of a byte is written, and a greater one is not. -/
theorem default_encoded_iff_fits_gauge :
    (∃ b' after, Assembly.encodeField (.fresh []) gaugeType silentGauge (.empty .big)
      (gaugeField markSlot) (.start #[]) = (.ok b', after)) ∧
    ¬∃ b', Assembly.encodeValue (.fresh []) 1 (.empty .big) levelSlot
      ⟨.integer, "300", ⟨"m", 1⟩⟩ (.start #[]) = (.ok b', .start #[]) := by
  have hknown : gaugeType ∈ gaugeKnown.registry.schemas.toList :=
    gauge_registered ▸ List.mem_singleton_self _
  have hmark := default_encoded_iff_fits _ _ _ reached_gauge gaugeType hknown
    (gaugeField markSlot) (by decide) (.fresh []) silentGauge
  have hlevel := default_encoded_iff_fits _ _ _ reached_gauge gaugeType hknown
    (gaugeField levelSlot) (by decide) (.fresh []) silentGauge
  constructor
  · have hreach : (gaugeField markSlot).InReach := by decide
    exact ((hmark.2 rfl rfl (by decide) hreach).1 _ _).mpr (by decide +kernel)
  · have hvalue := (hlevel.1 levelSlot List.mem_cons_self _ rfl nofun).1 (by decide) (by decide)
    exact (hvalue _ _).not.mpr (by decide +kernel)

/-- A definition accepts defaults that no instance can be assembled with: a number or a symbol that
its slot is too small for, an id of more than 16 bits, and a symbol in a text of three bytes. -/
theorem accepted_default_out_of_range :
    Analysis.Reached ⟨⟨[], []⟩, []⟩ gaugeSource gaugeKnown ∧
      gaugeType ∈ gaugeKnown.registry.schemas.toList ∧
      (∀ f ∈ gaugeType.fields, f.required = false ∧ f.PlainDefaults) ∧
      Assembly.encode (.fresh []) gaugeType silentGauge (.start #[]) =
        (.error (.meaning ⟨"m", 1⟩ (.outOfRange "300" (.bytes 1))), .start #[]) ∧
      let written (f : Field) (b : Buffer) (before : Assembly) :=
        (Assembly.encodeField (.fresh []) gaugeType silentGauge b f before).1
      ∀ b before,
        written (gaugeField ownerSlot) b before =
          .error (.meaning ⟨"m", 1⟩ (.outOfRange "40000" .resourceId)) ∧
        written (gaugeField gradeSlot) b before =
          .error (.meaning ⟨"m", 1⟩ (.outOfRange "high" (.bytes 1))) ∧
        written (gaugeField labelSlot) b before =
          .error (.meaning ⟨"m", 1⟩ (.noIntegerWidth "label" 3)) := by
  refine ⟨reached_gauge, gauge_registered ▸ List.mem_singleton_self _, by decide, rfl, ?_⟩
  intro written b before
  have hroom (f : Field) (hslots : ∀ slot ∈ f.slots, slot.InReach) :=
    Assembly.make_room_of_reach b hslots
  obtain ⟨_, howner⟩ := hroom (gaugeField ownerSlot) (by decide)
  obtain ⟨_, hgrade⟩ := hroom (gaugeField gradeSlot) (by decide)
  obtain ⟨_, hlabel⟩ := hroom (gaugeField labelSlot) (by decide)
  simp only [written, Assembly.encodeField, howner, hgrade, hlabel]
  exact ⟨rfl, rfl, rfl⟩

end ResourceCompiler

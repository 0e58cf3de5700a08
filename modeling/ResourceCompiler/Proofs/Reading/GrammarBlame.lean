import ResourceCompiler.Proofs.Reading.Blame
import ResourceCompiler.Proofs.Reading.Nesting

/-!
Every error in a literal, a definition or a declaration stands where something was written: at a
token of the block that was read, or at the one that is next.
-/

namespace ResourceCompiler

open ResourceCompiler.Parser

variable {known : Location → Prop} {given : Prop}

namespace Literal

theorem blames_file_reference {head : Token} (h : given → known head.location) :
    Blames known given (fileReference head) (known ·.location) := by
  refine (blames_ensure_kind _).before fun _ => (blames_ensure_kind _).before fun path => ?_
  exact (blames_ensure_kind _).before fun _ => blames_pure h

theorem blames_color_text : Blames known given colorText fun _ => True := by
  refine blames_repeating (fun _ => trivial) (fun text => blames_next.bind fun t => ?_)
    fun text => (local_color_round text).progresses
  split
  · exact blames_done
  · exact blames_done
  · exact blames_done
  · exact blames_fail_grammar And.right

/-- The whole colour is at fault. -/
theorem color_number_place {location : Location} {components : List (List Char)} {e : CompileError}
    (h : colorNumber location components = .error e) : e.place? = some location := by
  unfold colorNumber at h
  generalize 0 = color at h
  induction components generalizing color with
  | nil => cases h
  | cons component components ih =>
    rw [List.foldlM_cons] at h
    cases hc : channel? component with
    | none =>
      rw [hc] at h
      cases h
      rfl
    | some channel =>
      rw [hc] at h
      exact ih _ h

theorem blames_color {head : Token} (h : given → known head.location) :
    Blames known given (color head) (known ·.location) := by
  refine (blames_ensure_kind _).before fun _ => blames_color_text.before fun text => ?_
  dsimp only
  refine blames_ite (fun _ => blames_fail_meaning h) fun _ => ?_
  exact (blames_lift (fun _ => color_number_place) h).before fun _ => blames_pure h

theorem blames_negative {head : Token} (h : given → known head.location) :
    Blames known given (negative head) (known ·.location) := by
  refine (blames_accept_kind _).before fun found => ?_
  cases found with
  | some percentage => exact blames_pure h
  | none => exact (blames_ensure_kind _).before fun _ => blames_pure h

theorem blames_word {t : Token} (h : given → known t.location) :
    Blames known given (word t) (known ·.location) := by
  refine blames_look fun opens => blames_ite (fun _ => blames_file_reference h) fun _ => ?_
  exact blames_ite (fun _ => blames_color h) fun _ => blames_pure h

/-- A value stands where its first token does. -/
theorem blames_value : Blames known given value (known ·.location) := by
  refine blames_next.bind fun t => ?_
  split
  · exact blames_pure And.right
  · exact blames_pure And.right
  · exact blames_pure And.right
  · exact blames_pure And.right
  · exact blames_negative And.right
  · exact blames_word And.right
  · exact blames_fail_grammar And.right

end Literal

namespace Definition

theorem blames_locate {α : Type} {r : Except MeaningFault α} {place : Location}
    (h : given → known place) : Blames known given (locate place r) (r = .ok ·) := by
  cases r with
  | error fault => exact blames_fail_meaning h
  | ok a => exact blames_pure fun _ => rfl

theorem blames_text_assignment : Blames known given textAssignment fun _ => True :=
  (blames_ensure_kind _).before fun _ => (blames_ensure_kind _).before fun _ =>
    blames_done

theorem blames_block_head : Blames known given blockHead fun _ => True :=
  (blames_ensure_kind _).before fun _ => (blames_ensure_kind _).before fun _ =>
    (blames_ensure_kind _).before fun _ => (blames_ensure_kind _).before fun _ =>
      blames_done

/-! Slots -/

theorem blames_byte_count : Blames known given byteCount fun _ => True :=
  (blames_ensure_kind _).bind fun _ => (blames_demand And.right).plain

theorem blames_slot_size : Blames known given slotSize fun _ => True := by
  refine blames_look fun named => blames_ite (fun _ => ?_) fun _ => blames_byte_count
  exact blames_next.bind fun t => (blames_demand And.right).plain

theorem blames_once {α : Type} {key : Token} {earlier : Option α} {a : α}
    (h : given → known key.location) : Blames known given (once key earlier a) (· = some a) :=
  blames_ite (fun _ => blames_fail_meaning h) fun _ => blames_pure fun _ => rfl

/-- What is kept of the attributes that have a place of their own. -/
structure SlotAttributes.Known (known : Location → Prop) (a : SlotAttributes) : Prop where
  type : ∀ t ∈ a.type, known t.location
  default : ∀ v ∈ a.default, known v.location

theorem blames_attribute {α β : Type} {key : Token} {earlier : Option α} {p : Parser β}
    {told : β → Prop} {pick : β → α} {keep : Option α → SlotAttributes}
    (hkey : given → known key.location) (hp : Blames known given p told)
    (hkeep : ∀ b, given → told b → (keep (some (pick b))).Known known) :
    Blames known given (do return keep (← once key earlier (pick (← p)))) (·.Known known) := by
  refine hp.bind fun b => (blames_once fun hg => hkey hg.1).bind fun kept => blames_pure ?_
  rintro ⟨⟨hg, hb⟩, rfl⟩
  exact hkeep b hg hb

theorem blames_slot_attribute (a : SlotAttributes) :
    Blames known (given ∧ a.Known known) (slotAttribute a) (·.Known known) := by
  refine (blames_ensure_kind _).bind fun key => (blames_ensure_kind _).before fun _ => ?_
  split
  · exact blames_attribute And.right (blames_ensure_kind _) fun _ hg _ =>
      ⟨hg.1.2.type, hg.1.2.default⟩
  · exact blames_attribute And.right blames_byte_count fun _ hg _ =>
      ⟨hg.1.2.type, hg.1.2.default⟩
  · exact blames_attribute And.right blames_byte_count fun _ hg _ =>
      ⟨hg.1.2.type, hg.1.2.default⟩
  · exact blames_attribute And.right blames_slot_size fun _ hg _ =>
      ⟨hg.1.2.type, hg.1.2.default⟩
  · exact blames_attribute And.right (blames_ensure_kind _) fun type hg htype =>
      ⟨fun _ ht => Option.some.inj ht ▸ htype, hg.1.2.default⟩
  · exact blames_attribute And.right Literal.blames_value fun value hg hvalue =>
      ⟨hg.1.2.type, fun _ hv => Option.some.inj hv ▸ hvalue⟩
  · exact blames_fail_grammar And.right

theorem blames_symbol_number : Blames known given symbolNumber fun _ => True := by
  refine (blames_accept_kind _).bind fun minus => ?_
  cases minus with
  | some _ =>
    exact (blames_ensure_kind _).bind fun t => (blames_demand And.right).plain
  | none =>
    refine (blames_accept_kind _).bind fun id => ?_
    cases id with
    | some id =>
      exact (blames_demand fun hg => hg.2 id rfl).plain
    | none =>
      exact (blames_ensure_kind _).bind fun t => (blames_demand And.right).plain

theorem blames_symbol (symbols : List Symbol) :
    Blames known given (symbol symbols) fun _ => True := by
  refine (blames_ensure_kind _).bind fun name => (blames_ensure_kind _).before fun _ => ?_
  refine blames_symbol_number.before fun _ => (blames_ensure_kind _).before fun _ => ?_
  exact blames_ite (fun _ => blames_fail_meaning And.right) fun _ => blames_done

theorem blames_symbols : Blames known given symbols fun _ => True :=
  (blames_ensure_kind _).before fun _ => blames_items blames_symbol fun symbols =>
    (local_symbol symbols).weaken (by decide)

/-- A default is blamed where it stands. -/
theorem blames_given_default {bare : Slot} {default : Option Value}
    (h : given → ∀ v ∈ default, known v.location) :
    Blames known given (match default with
      | none => pure bare
      | some value => do
        locate value.location (checkDefault bare value)
        return { bare with default := some value }) fun _ => True := by
  cases default with
  | none => exact blames_done
  | some value =>
    exact (blames_locate fun hg => h hg value rfl).before fun _ => blames_done

theorem blames_slot (field : String) : Blames known given (slot field) fun _ => True := by
  refine (blames_ensure_kind _).bind fun opening => ?_
  have hattributes : Blames known (given ∧ known opening.location)
      (listUntilClosed .rightParen slotAttribute noAttributes) (·.Known known) :=
    blames_list_until_closed (fun _ => ⟨nofun, nofun⟩) blames_slot_attribute fun a =>
      (local_slot_attribute a).weaken (by decide)
  refine hattributes.bind fun a => (blames_demand fun hg => hg.1.2).bind fun type => ?_
  refine (blames_demand fun hg => hg.1.1.2).before fun offset => ?_
  refine (blames_locate fun hg => hg.1.2.type type hg.2).before fun sized => ?_
  refine blames_look fun opens => blames_ite (fun _ => ?_) fun _ => ?_
  · exact blames_symbols.before fun table => blames_given_default fun hg => hg.1.2.default
  · exact blames_given_default fun hg => hg.1.2.default

/-! Fields -/

theorem blames_deprecation : Blames known given deprecation fun _ => True := by
  refine (blames_accept_kind _).before fun opening => ?_
  cases opening with
  | none => exact blames_done
  | some _ =>
    exact (blames_ensure_kind _).before fun _ => (blames_ensure_kind _).before fun _ =>
      blames_done

theorem blames_field_item (f : Field) : Blames known given (fieldItem f) fun _ => True := by
  refine (blames_ensure_kind _).bind fun item => ?_
  dsimp only
  split
  · exact blames_ended blames_done
  · exact blames_deprecation.before fun _ => blames_ended blames_done
  · exact (blames_slot _).before fun _ => blames_ended blames_done
  · exact blames_ended (blames_fail_grammar And.right)

/-- A field is blamed at its opening parenthesis. -/
theorem blames_field : Blames known given field fun _ => True := by
  refine blames_first blames_block_head ?_ fun start name => ?_
  · intro c name c' h
    obtain ⟨taken, hu, hlen⟩ := local_block_head.reads h
    rw [hu, List.length_append]
    omega
  · refine (blames_items blames_field_item fun f =>
      (local_field_item f).weaken (by decide)).before fun f => ?_
    exact blames_ite (fun _ => blames_fail_meaning fun hg => hg.2.1) fun _ =>
      blames_done

/-! References -/

theorem blames_accept_operator : Blames known given acceptOperator fun _ => True := by
  rw [accept_operator_eq]
  refine blames_look fun operator => ?_
  cases operator with
  | none => exact blames_done
  | some operator => exact blames_next.before fun _ => blames_done

theorem blames_mapping_id {t : Token} (h : given → known t.location) :
    Blames known given (mappingId t) fun _ => True :=
  (blames_demand h).plain

theorem blames_operand : Blames known given operand fun _ => True := by
  refine blames_next.bind fun t => ?_
  split
  · exact blames_ite (fun _ => blames_done) fun _ => blames_fail_grammar And.right
  · exact (blames_mapping_id And.right).before fun _ => blames_done
  · exact (blames_mapping_id And.right).before fun _ => blames_done
  · exact blames_fail_grammar And.right

theorem blames_id_mapping : Blames known given idMapping fun _ => True := by
  refine blames_accept_operator.before fun first => ?_
  refine Blames.before (show Blames known given _ fun _ => True from
    blames_repeating (fun _ => trivial) (fun state => ?_)
      fun state => (local_mapping_round state).progresses) fun _ => blames_done
  refine blames_operand.before fun _ => blames_accept_operator.before fun operator => ?_
  cases operator <;> exact blames_done

theorem blames_reference_item (r : Reference) :
    Blames known given (referenceItem r) fun _ => True := by
  refine (blames_ensure_kind _).bind fun item => (blames_ensure_kind _).before fun _ => ?_
  dsimp only
  split
  · exact (blames_ensure_kind _).before fun _ => blames_ended blames_done
  · refine (blames_ensure_kind _).bind fun first => (blames_ensure_kind _).bind fun last => ?_
    refine (blames_mapping_id fun hg => hg.1.2).before fun low => ?_
    refine (blames_mapping_id And.right).before fun high => blames_ite (fun _ => ?_) fun _ => ?_
    · exact blames_ended (blames_fail_meaning fun hg => hg.1.1.2)
    · exact blames_ended blames_done
  · exact blames_id_mapping.before fun _ => blames_ended blames_done
  · exact blames_ended (blames_fail_grammar And.right)

theorem blames_reference {head : Token} (h : given → known head.location) :
    Blames known given (reference head) fun _ => True := by
  refine blames_block_head.before fun name => ?_
  refine (blames_items blames_reference_item fun r =>
    (local_reference_item r).weaken (by decide)).before fun r => ?_
  exact blames_ite (fun _ => blames_fail_meaning h) fun _ => blames_done

/-! Types -/

/-- The items of a type leave its place alone. -/
theorem blames_item {location : Location} (s : Schema) :
    Blames known (given ∧ s.location = location) (item s) (·.location = location) := by
  refine (blames_ensure_kind _).bind fun word => ?_
  dsimp only
  split
  · exact blames_text_assignment.before fun _ => blames_ended (blames_pure fun hg => hg.1.2)
  · exact blames_text_assignment.before fun _ => blames_ended (blames_pure fun hg => hg.1.2)
  · refine blames_field.before fun f => blames_ite (fun _ => ?_) fun _ => ?_
    · exact blames_ended (blames_fail_meaning And.right)
    · exact blames_ended (blames_pure fun hg => hg.1.2)
  · refine (blames_reference And.right).before fun r => blames_ite (fun _ => ?_) fun _ => ?_
    · exact blames_ended (blames_fail_meaning And.right)
    · exact blames_ended (blames_pure fun hg => hg.1.2)
  · exact blames_ended (blames_fail_grammar And.right)

/-- A type is blamed where its definition starts, which is the place that it keeps. -/
theorem blames_schema {location : Location} (h : given → known location) :
    Blames known given (schema location) (·.location = location) := by
  refine (blames_ensure_kind _).before fun _ => ?_
  have hitems : Blames known given
      (untilClosed .rightBrace item ⟨"", "", [], [], location⟩) (·.location = location) :=
    blames_until_closed (fun _ => rfl) blames_item fun s => (local_item s).weaken (by decide)
  refine hitems.bind fun s => ?_
  exact (blames_locate fun hg => h hg.1).before fun _ => blames_pure And.right

end Definition

namespace Declaration

theorem blames_resource_id {t : Token} (h : given → known t.location) :
    Blames known given (resourceId t) fun _ => True :=
  (blames_demand h).plain

theorem blames_identity_attribute (identity : Int64 × String) :
    Blames known given (identityAttribute identity) fun _ => True := by
  refine (blames_ensure_kind _).bind fun key => (blames_ensure_kind _).before fun _ => ?_
  split
  · refine (blames_ensure_kind _).bind fun id => ?_
    exact (blames_resource_id And.right).before fun _ => blames_done
  · exact (blames_ensure_kind _).before fun _ => blames_done
  · exact blames_fail_grammar And.right

theorem blames_attributes (identity : Int64 × String) :
    Blames known given (attributes identity) fun _ => True := by
  refine (blames_accept_kind _).before fun opening => ?_
  cases opening with
  | none => exact blames_done
  | some _ =>
    exact blames_list_until_closed (fun _ => trivial)
      (fun identity => (blames_identity_attribute identity).under And.left)
      fun identity => (local_identity_attribute identity).weaken (by decide)

theorem blames_values {field : Token} (h : given → known field.location) :
    Blames known given (values field) fun _ => True := by
  refine (blames_items (fun _ => Literal.blames_value.before fun _ => blames_done)
    fun _ => Literal.local_value.bind fun _ => local_pure _).before fun values => ?_
  exact blames_ite (fun _ => blames_fail_grammar h) fun _ => blames_done

theorem lookup_place {registry : Registry} {name : String} {location : Location} {e : CompileError}
    (h : registry.lookup name location = .error e) : e.place? = some location := by
  unfold Registry.lookup at h
  split at h
  · cases h
  · cases h
    rfl

/-- Whatever is wrong with a nested resource, it is wrong at the field. -/
theorem nested_reference_place {registry : Registry} {parent : Instance} {field : Token}
    {e : CompileError} (h : nestedReference registry parent field = .error e) :
    e.place? = some field.location := by
  rcases except_bind_eq_error.mp h with hlookup | ⟨schema, -, h⟩
  · exact lookup_place hlookup
  · cases hr : schema.reference? field.text with
    | none =>
      rw [hr] at h
      cases h
      rfl
    | some reference =>
      rw [hr] at h
      rcases except_bind_eq_error.mp h with hlookup | ⟨target, -, h⟩
      · exact lookup_place hlookup
      · split at h
        · cases h
        · cases h
          rfl

theorem assign_place {i : Instance} {a : Assignment} {e : CompileError}
    (h : i.assign a = .error e) : e.place? = some a.location := by
  unfold Instance.assign at h
  split at h
  · cases h
    rfl
  · cases h

variable {registry : Registry}

theorem blames_assignment {readNested : String → Int64 × String → Parser InstanceTree}
    (hnested : ∀ {given} typeName identity,
      Blames known given (readNested typeName identity) fun _ => True)
    (tree : Instance × List InstanceTree) :
    Blames known given (assignment registry readNested tree) fun _ => True := by
  refine (blames_ensure_kind _).bind fun field => (blames_ensure_kind _).before fun _ => ?_
  refine blames_look fun c => blames_ite (fun _ => ?_) fun _ => ?_
  · refine (blames_lift (fun _ => nested_reference_place) And.right).before fun reference => ?_
    refine (hnested _ _).before fun child => ?_
    dsimp only
    refine blames_ite (fun _ => blames_fail_meaning And.right) fun _ => ?_
    exact (blames_accept_kind _).before fun _ => blames_done
  · refine (blames_values And.right).before fun values => ?_
    exact (blames_lift (fun _ => assign_place) And.right).before fun _ => blames_done

/-- Instances nest; each of them blames what was read for it. -/
theorem blames_instance_tree (levels : Nat) (typeName : String) (identity : Int64 × String) :
    Blames known given (instanceTree registry levels typeName identity) fun _ => True := by
  induction levels generalizing given typeName identity with
  | zero => exact fun c => traced_at_last
  | succ levels ih =>
    refine (blames_ensure _).before fun head => (blames_attributes _).before fun identity => ?_
    refine (blames_ensure_kind _).before fun _ => ?_
    refine (blames_items (blames_assignment ih) fun tree => ?_).before fun _ => blames_done
    exact (local_assignment (local_instance_tree levels) tree).weaken (by decide)

theorem blames_instances (typeName : String) :
    Blames known given (instances registry typeName) fun _ => True := by
  refine blames_look fun c => blames_items (fun trees => ?_) (local_listed _ _)
  refine (blames_instance_tree _ _ _).before fun tree => ?_
  exact (blames_accept_kind _).before fun _ => blames_done

/-- A type that is not known is blamed where it is named. -/
theorem blames_body : Blames known given (body registry) fun _ => True := by
  refine (blames_ensure_kind _).bind fun type => (blames_ensure_kind _).before fun _ => ?_
  exact (blames_lift (fun _ => lookup_place) And.right).before fun _ => blames_instances _

end Declaration

end ResourceCompiler

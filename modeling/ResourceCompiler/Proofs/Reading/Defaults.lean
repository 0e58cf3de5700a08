import ResourceCompiler.Proofs.Reading.Colors
import ResourceCompiler.Proofs.Reading.Consistency
import ResourceCompiler.Proofs.Text.Decimal

/-!
What can be relied on in the defaults of a type, beyond their form: they are values as a source can
write them, and a source cannot write a colour of more than 24 bits.
-/

namespace ResourceCompiler

open ResourceCompiler.Parser

/-- A value that is the decimal text of 24 bits if it is a colour. -/
def Value.Painted (v : Value) : Prop := v.form = .color → ∃ n ≤ 0xFFFFFF, v.text = toString n

theorem Value.painted_of_ne {v : Value} (h : v.form ≠ .color) : v.Painted := fun hform =>
  absurd hform h

namespace Literal

theorem color_number_le {location : Location} {components : List (List Char)} {number : Nat}
    (hlength : components.length = 3) (h : colorNumber location components = .ok number) :
    number ≤ 0xFFFFFF := by
  obtain ⟨_, _, _, r, g, b, -, ⟨-, hr⟩, ⟨-, hg⟩, ⟨-, hb⟩, rfl⟩ :=
    color_number_eq_ok.mp ⟨hlength, h⟩
  omega

theorem yields_color (head : Token) : Yields (color head) Value.Painted := by
  refine yields_after _ fun _ => yields_after _ fun text => ?_
  dsimp only
  refine yields_ite (fun _ => yields_fail _) fun hlength => ?_
  refine (yields_lift _).bind fun number hnumber => yields_pure fun _ => ?_
  exact ⟨number, color_number_le (not_not.mp hlength) hnumber, rfl⟩

theorem yields_negative (head : Token) : Yields (negative head) Value.Painted := by
  refine yields_after _ fun found => ?_
  cases found with
  | some percentage => exact yields_pure (Value.painted_of_ne nofun)
  | none => exact yields_after _ fun _ => yields_pure (Value.painted_of_ne nofun)

theorem yields_word (t : Token) : Yields (word t) Value.Painted := by
  refine yields_after _ fun opens => yields_ite (fun _ => ?_) fun _ => ?_
  · refine yields_after _ fun _ => yields_after _ fun _ => yields_after _ fun _ => ?_
    exact yields_pure (Value.painted_of_ne nofun)
  · exact yields_ite (fun _ => yields_color t) fun _ => yields_pure (Value.painted_of_ne nofun)

/-- Only a colour is read as a colour. -/
theorem yields_value : Yields value Value.Painted := by
  have hplain {form : ValueForm} {t : Token} (h : form ≠ .color) :
      Yields (pure ⟨form, t.text, t.location⟩) Value.Painted :=
    yields_pure (Value.painted_of_ne h)
  refine yields_after _ fun t => ?_
  split
  · exact hplain nofun
  · exact hplain nofun
  · exact hplain nofun
  · exact hplain nofun
  · exact yields_negative t
  · exact yields_word t
  · exact yields_fail _

end Literal

namespace Definition

variable {good : Value → Prop}

theorem yields_once {α : Type} (key : Token) (earlier : Option α) (given : α) :
    Yields (once key earlier given) (· = some given) :=
  yields_ite (fun _ => yields_fail _) fun _ => yields_pure rfl

theorem yields_slot_attribute (hvalue : Yields Literal.value good) {a : SlotAttributes}
    (h : ∀ v ∈ a.default, good v) : Yields (slotAttribute a) fun a => ∀ v ∈ a.default, good v := by
  refine yields_after _ fun key => yields_after _ fun _ => ?_
  split
  · exact yields_after _ fun _ => yields_after _ fun _ => yields_pure h
  · exact yields_after _ fun _ => yields_after _ fun _ => yields_pure h
  · exact yields_after _ fun _ => yields_after _ fun _ => yields_pure h
  · exact yields_after _ fun _ => yields_after _ fun _ => yields_pure h
  · exact yields_after _ fun _ => yields_after _ fun _ => yields_pure h
  · refine hvalue.bind fun v hv => (yields_once _ _ _).bind fun given hgiven => yields_pure ?_
    subst hgiven
    exact fun _ hmem => Option.some.inj hmem ▸ hv
  · exact yields_fail _

theorem yields_given_default {bare : Slot} {default : Option Value} (hnone : bare.default = none)
    (h : ∀ v ∈ default, good v) :
    Yields (match default with
      | none => pure bare
      | some value => do
        locate value.location (checkDefault bare value)
        return { bare with default := some value }) fun s => ∀ v ∈ s.default, good v := by
  cases default with
  | none => exact yields_pure (by simp [hnone])
  | some value => exact yields_after _ fun _ => yields_pure h

/-- A default is a value as it is read, and has what all of those have. -/
theorem yields_slot_default (hvalue : Yields Literal.value good) (field : String) :
    Yields (slot field) fun s => ∀ v ∈ s.default, good v := by
  refine yields_after _ fun _ => ?_
  have hattributes : Yields (listUntilClosed .rightParen slotAttribute noAttributes)
      fun a => ∀ v ∈ a.default, good v :=
    yields_list_until_closed nofun fun _ => yields_slot_attribute hvalue
  refine hattributes.bind fun a ha => yields_after _ fun type => yields_after _ fun offset =>
    yields_after _ fun sized => yields_after _ fun opens => ?_
  refine yields_ite (fun _ => yields_after _ fun table => ?_) fun _ => ?_
  · exact yields_given_default rfl ha
  · exact yields_given_default rfl ha

/-- No default of a type is a colour out of range. -/
theorem yields_painted_defaults (location : Location) :
    Yields (schema location)
      fun s => ∀ f ∈ s.fields, ∀ slot ∈ f.slots, ∀ v ∈ slot.default, v.Painted := by
  refine yields_schema_fields ?_ location
  exact (yields_field_slots (yields_slot_default Literal.yields_value)).mono fun _ h => h.2

end Definition

end ResourceCompiler

import ResourceCompiler.Text.MacRoman

/-!
What is left of a text in Mac OS Roman. Its bytes can be read back as characters, and give every
text back except for the characters that the set lacks: all of those are stored as question marks.
So two texts have the same bytes exactly if they differ in nothing but such characters.
-/

namespace ResourceCompiler.MacRoman

/-- The character that a byte stands for. -/
def decodeChar (b : UInt8) : Char :=
  if b.toNat < 128 then Char.ofNat b.toNat else highHalf.getD (b.toNat - 128) '?'

/-- A character as it is stored. -/
def storedChar (c : Char) : Char := if c.val < 128 ∨ c ∈ highHalf then c else '?'

/-- A text as it is stored. -/
def stored (text : String) : String := String.ofList (text.toList.map storedChar)

theorem decode_ascii {c : Char} (hc : c.val < 128) : decodeChar c.val.toUInt8 = c := by
  have hn : c.toNat < 128 := UInt32.lt_iff_toNat_lt.mp hc
  have hb : c.val.toUInt8.toNat = c.toNat := by
    rw [UInt32.toNat_toUInt8]
    exact Nat.mod_eq_of_lt (Nat.lt_trans hn (by decide))
  rw [decodeChar, hb, if_pos hn, Char.ofNat_toNat]

theorem decode_high {c : Char} {place : Nat} (hp : highHalf.idxOf? c = some place) :
    decodeChar (UInt8.ofNat (128 + place)) = c := by
  obtain ⟨hlt, hget, -⟩ := List.findIdx?_eq_some_iff_getElem.mp hp
  have hsmall : 128 + place < 256 := by
    have hlen : highHalf.length = 128 := rfl
    omega
  have hb : (UInt8.ofNat (128 + place)).toNat = 128 + place := by
    rw [UInt8.toNat_ofNat']
    exact Nat.mod_eq_of_lt hsmall
  rw [decodeChar, hb, if_neg (by omega), Nat.add_sub_cancel_left, List.getD_eq_getElem?_getD,
    List.getElem?_eq_getElem hlt, Option.getD_some]
  exact eq_of_beq hget

/-- Reading a stored character gives it back, or the question mark that stands for it. -/
theorem decode_encode_char (c : Char) : decodeChar (encodeChar c) = storedChar c := by
  unfold encodeChar storedChar
  by_cases hc : c.val < 128
  · rw [if_pos hc, if_pos (.inl hc), decode_ascii hc]
  · rw [if_neg hc]
    cases hp : highHalf.idxOf? c with
    | some place =>
      have hm : c ∈ highHalf := List.isSome_idxOf?.mp (by rw [hp]; rfl)
      rw [if_pos (.inr hm)]
      exact decode_high hp
    | none =>
      have hm : c ∉ highHalf := List.idxOf?_eq_none_iff.mp hp
      rw [if_neg (not_or.mpr ⟨hc, hm⟩)]
      decide

/-- Storing what is left of a character changes nothing. -/
theorem encode_stored_char (c : Char) : encodeChar (storedChar c) = encodeChar c := by
  unfold storedChar
  split
  · rfl
  · rename_i h
    obtain ⟨hc, hm⟩ := not_or.mp h
    have hp : highHalf.idxOf? c = none := List.idxOf?_eq_none_iff.mpr hm
    rw [encodeChar.eq_def c, if_neg hc, hp]
    decide

/-- Texts have the same bytes exactly if the same is left of them. -/
theorem encode_eq_iff {a b : String} : encode a = encode b ↔ stored a = stored b := by
  have hread (text : String) : (encode text).map decodeChar = (stored text).toList := by
    simp [encode, stored, decode_encode_char]
  have hwrite (text : String) : encode (stored text) = encode text := by
    simp [encode, stored, encode_stored_char]
  constructor
  · intro h
    rw [← String.toList_inj, ← hread, ← hread, h]
  · intro h
    rw [← hwrite, h, hwrite]

end ResourceCompiler.MacRoman

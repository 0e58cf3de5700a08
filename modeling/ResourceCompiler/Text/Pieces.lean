/-!
Cutting a text at a separator character, and putting the pieces together again.
-/

namespace ResourceCompiler.Text

/-- The pieces of a text between its separators, empty ones included. A text without
a separator is its own only piece, so there is always one. -/
def pieces (separator : Char) : List Char → List (List Char)
  | [] => [[]]
  | c :: rest =>
    if c = separator then [] :: pieces separator rest
    else match pieces separator rest with
      | [] => [[c]]
      | piece :: others => (c :: piece) :: others

/-- The pieces with one separator between neighbours. -/
def joined (separator : Char) : List (List Char) → List Char
  | [] => []
  | [piece] => piece
  | piece :: others => piece ++ separator :: joined separator others

theorem pieces_ne_nil (separator : Char) (text : List Char) : pieces separator text ≠ [] := by
  cases text with
  | nil => simp [pieces]
  | cons c rest =>
    simp only [pieces]
    split
    · simp
    · split <;> simp

/-- Cutting loses nothing: the pieces join to the text they were cut from. -/
theorem joined_pieces (separator : Char) (text : List Char) :
    joined separator (pieces separator text) = text := by
  induction text with
  | nil => rfl
  | cons c rest ih =>
    simp only [pieces]
    split
    · rename_i hc
      cases hp : pieces separator rest with
      | nil => exact absurd hp (pieces_ne_nil separator rest)
      | cons piece others =>
        rw [hp] at ih
        simp [joined, ih, hc]
    · split
      · rename_i hp
        exact absurd hp (pieces_ne_nil separator rest)
      · rename_i piece others hp
        rw [hp] at ih
        cases others with
        | nil => simpa [joined] using ih
        | cons other others => simpa [joined] using ih

end ResourceCompiler.Text

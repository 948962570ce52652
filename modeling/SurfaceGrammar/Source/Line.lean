import SurfaceGrammar.Text.Utf8

/-!
# Lines of a source

A source is cut into lines after each line feed, so the last line has none and may be
empty. A byte offset lies on the line that holds the byte there, and the end of the source
lies on the last line.

* `lines`: the lines of a text, each with its line feed.
* `lineAt?`: the line of an offset, with its number and the bytes before the offset on it.
-/

namespace SurfaceGrammar

/-- The place of an offset among the lines of a source. -/
structure Line where
  /-- The number of the line, counted from 1. -/
  number : Nat
  /-- The line with its line feed, if it has one. -/
  text : List Char
  /-- The number of bytes of the line before the offset. -/
  column : Nat
deriving DecidableEq

/-- The lines of a text. Every line but the last ends with a line feed. -/
def lines : List Char → List (List Char)
  | [] => [[]]
  | c :: text =>
    if c = '\n' then [c] :: lines text
    else
      match lines text with
      | [] => [[c]]
      | line :: rest => (c :: line) :: rest

/-- The line of an offset among lines that are numbered from `number`. -/
def locate (number offset : Nat) : List (List Char) → Option Line
  | [] => none
  | [last] => if offset ≤ Utf8.size last then some ⟨number, last, offset⟩ else none
  | line :: next :: rest =>
    if offset < Utf8.size line then some ⟨number, line, offset⟩
    else locate (number + 1) (offset - Utf8.size line) (next :: rest)

/-- The line of a byte offset, if the offset lies within the text or at its end. -/
def lineAt? (source : String) (offset : Nat) : Option Line :=
  locate 1 offset (lines source.toList)

theorem lines_ne_nil (text : List Char) : lines text ≠ [] := by
  cases text with
  | nil => simp [lines]
  | cons c text =>
    rw [lines]
    split
    · simp
    · split <;> simp

/-- Nothing is lost when a text is cut into lines. -/
theorem flatten_lines (text : List Char) : (lines text).flatten = text := by
  induction text with
  | nil => rfl
  | cons c text ih =>
    rw [lines]
    split
    · simp [ih]
    · split
      · next h => exact absurd h (lines_ne_nil text)
      · next line rest h =>
        rw [h] at ih
        simpa using ih

end SurfaceGrammar

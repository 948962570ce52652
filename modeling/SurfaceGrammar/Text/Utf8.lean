/-!
# UTF-8 sizes of text

Offsets into a source count bytes of its UTF-8 form, while the text itself is
handled as a list of characters. This module measures such a list.

* `Utf8.size`: the number of bytes of a text.
* `Utf8.fit`: the longest beginning of a text within a number of bytes.
* `Utf8.drop`: what follows a number of bytes.
* `Utf8.split`: a text cut at a byte count, when the cut falls between two characters.
-/

namespace SurfaceGrammar.Utf8

/-- The number of bytes of a text in UTF-8. -/
def size (text : List Char) : Nat :=
  text.foldr (fun c total => c.utf8Size + total) 0

@[simp] theorem size_nil : size [] = 0 := rfl

@[simp] theorem size_cons (c : Char) (text : List Char) :
    size (c :: text) = c.utf8Size + size text := rfl

@[simp] theorem size_append (first second : List Char) :
    size (first ++ second) = size first + size second := by
  induction first with
  | nil => simp
  | cons c first ih => simp [ih, Nat.add_assoc]

/-- A text takes at least one byte per character. -/
theorem length_le_size (text : List Char) : text.length ≤ size text := by
  induction text with
  | nil => simp
  | cons c text ih =>
    have := c.utf8Size_pos
    simp only [List.length_cons, size_cons]
    omega

/-- The longest beginning of a text that takes at most `limit` bytes, cut between
characters. -/
def fit (limit : Nat) : List Char → List Char
  | [] => []
  | c :: text => if c.utf8Size ≤ limit then c :: fit (limit - c.utf8Size) text else []

/-- The text after its first `count` bytes, as far as the cut falls between two characters,
and the number of bytes by which the cut lies further on. -/
def drop : Nat → List Char → Nat × List Char
  | count, [] => (count, [])
  | count, c :: text =>
    if c.utf8Size ≤ count then drop (count - c.utf8Size) text else (count, c :: text)

/-- The first `count` bytes of a text and the rest, when the cut falls between two
characters or at an end of the text. -/
def split : Nat → List Char → Option (List Char × List Char)
  | 0, text => some ([], text)
  | _ + 1, [] => none
  | count + 1, c :: text =>
    if c.utf8Size ≤ count + 1 then
      (split (count + 1 - c.utf8Size) text).map fun (front, back) => (c :: front, back)
    else none

end SurfaceGrammar.Utf8

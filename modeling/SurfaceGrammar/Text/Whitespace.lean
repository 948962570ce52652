/-!
# White space

The characters with the Unicode property White_Space. They separate tokens, and they
are dropped at the end of a line that a diagnostic quotes.
-/

namespace SurfaceGrammar

/-- The ranges of the property White_Space, each with its first and last code point. -/
def whitespaceRanges : List (Nat × Nat) :=
  [(0x9, 0xd), (0x20, 0x20), (0x85, 0x85), (0xa0, 0xa0), (0x1680, 0x1680), (0x2000, 0x200a),
    (0x2028, 0x2029), (0x202f, 0x202f), (0x205f, 0x205f), (0x3000, 0x3000)]

/-- Whether a character has the Unicode property White_Space. -/
def isWhitespace (c : Char) : Bool :=
  whitespaceRanges.any fun (first, last) => first ≤ c.toNat && c.toNat ≤ last

/-- The text without the white space at its end. -/
def trimEnd (text : List Char) : List Char :=
  (text.reverse.dropWhile isWhitespace).reverse

theorem isWhitespace_newline : isWhitespace '\n' = true := by decide

end SurfaceGrammar

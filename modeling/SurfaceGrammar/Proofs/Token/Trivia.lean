import SurfaceGrammar.Proofs.Token.Locality

/-!
# White space and comments

A scanner goes over white space and complete comments in one step, whatever they are. All that it
remembers is how many bytes it passed and whether a line feed was among them.

* `IsTrivia`: white space, line comments with their line feeds, and block comments.
* `Scanner.skipTrivia_append`, `Scanner.skipTrivia_of_isTrivia`: a scanner in front of such a text.
* `Scanner.gap`, `Scanner.skipTrivia_of_gap`: what a scanner skips before the next token.
-/

namespace SurfaceGrammar

/-- A text of white space, line comments that a line feed closes, and block comments that are
closed. -/
inductive IsTrivia : List Char → Prop
  | nil : IsTrivia []
  | blank {c : Char} {text : List Char} (blank : isWhitespace c = true) (tail : IsTrivia text) :
      IsTrivia (c :: text)
  | line {body text : List Char} (noLineFeed : '\n' ∉ body) (tail : IsTrivia text) :
      IsTrivia ('/' :: '/' :: body ++ '\n' :: text)
  | block {body text : List Char} (noEnd : ¬['*', '/'] <:+: body) (tail : IsTrivia text) :
      IsTrivia ('/' :: '*' :: body ++ '*' :: '/' :: text)

theorem IsTrivia.of_blank {text : List Char} (h : ∀ c ∈ text, isWhitespace c = true) :
    IsTrivia text := by
  induction text with
  | nil => exact .nil
  | cons c text ih =>
    exact .blank (h c List.mem_cons_self) (ih fun d hd => h d (List.mem_cons_of_mem c hd))

namespace Trivia

theorem take?_line {body : List Char} (rest : List Char) (h : '\n' ∉ body) :
    take? ('/' :: '/' :: body ++ '\n' :: rest) = some ('/' :: '/' :: body) := by
  have hbody : (body ++ '\n' :: rest).takeWhile (· ≠ '\n') = body := by
    rw [List.takeWhile_append_of_pos (by simpa using fun c hc => ne_of_mem_of_not_mem hc h)]
    simp
  exact take?_eq_some_iff.mpr (.inr (.inl ⟨body ++ '\n' :: rest, rfl, by rw [hbody]⟩))

/-- A block comment ends with the first `*/` after its beginning. -/
theorem throughCommentEnd?_eq {body : List Char} (rest : List Char)
    (h : ¬['*', '/'] <:+: body) :
    throughCommentEnd? (body ++ '*' :: '/' :: rest) = some (body ++ ['*', '/']) := by
  induction body with
  | nil => rfl
  | cons c body ih =>
    rw [List.cons_append, throughCommentEnd?]
    · rw [ih fun hinner => h (hinner.trans (List.suffix_cons c body).isInfix)]
      rfl
    · rintro rest' rfl hrest
      cases body with
      | nil => cases hrest
      | cons d body =>
        cases hrest
        exact h ⟨[], body, rfl⟩

theorem take?_block {body : List Char} (rest : List Char) (h : ¬['*', '/'] <:+: body) :
    take? ('/' :: '*' :: body ++ '*' :: '/' :: rest) = some ('/' :: '*' :: body ++ ['*', '/']) :=
  take?_eq_some_iff.mpr (.inr (.inr ⟨_, _, rfl, throughCommentEnd?_eq rest h, rfl⟩))

end Trivia

namespace Scanner

section Skipping

variable {gap back piece : List Char}

/-- A scanner goes over one character or comment. -/
theorem skipTrivia_of_piece (h : Trivia.take? (piece ++ back) = some piece) (offset : Nat)
    (lineBreak afterValue : Bool) :
    skipTrivia ⟨piece ++ back, offset, lineBreak, afterValue⟩ =
      skipTrivia ⟨back, offset + Utf8.size piece, lineBreak || piece.contains '\n',
        afterValue && !piece.contains '\n'⟩ := by
  rw [skipTrivia_of_some h, skip, List.drop_left]

/-- A scanner goes over white space and comments in one step, and remembers if there was a line
feed in them. -/
theorem skipTrivia_append (hgap : IsTrivia gap) (back : List Char) (offset : Nat)
    (lineBreak afterValue : Bool) :
    skipTrivia ⟨gap ++ back, offset, lineBreak, afterValue⟩ =
      skipTrivia ⟨back, offset + Utf8.size gap, lineBreak || gap.contains '\n',
        afterValue && !gap.contains '\n'⟩ := by
  induction hgap generalizing offset lineBreak afterValue with
  | nil => simp
  | @blank c text blank _ ih =>
    have htake : Trivia.take? ([c] ++ (text ++ back)) = some [c] :=
      Trivia.take?_eq_some_iff.mpr (.inl ⟨c, text ++ back, rfl, blank, rfl⟩)
    refine (skipTrivia_of_piece htake offset lineBreak afterValue).trans ((ih ..).trans ?_)
    simp [Bool.or_assoc, Bool.and_assoc, Nat.add_assoc]
  | @line body text noLineFeed _ ih =>
    have hbody : Trivia.take? ('/' :: '/' :: body ++ '\n' :: (text ++ back)) =
        some ('/' :: '/' :: body) := Trivia.take?_line _ noLineFeed
    have hfeed : Trivia.take? (['\n'] ++ (text ++ back)) = some ['\n'] :=
      Trivia.take?_eq_some_iff.mpr (.inl ⟨'\n', text ++ back, rfl, isWhitespace_newline, rfl⟩)
    rw [List.append_assoc]
    refine (skipTrivia_of_piece hbody offset lineBreak afterValue).trans ?_
    refine (skipTrivia_of_piece hfeed ..).trans ((ih ..).trans ?_)
    simp [Nat.add_assoc]
  | @block body text noEnd _ ih =>
    have hpiece : Trivia.take? (('/' :: '*' :: body ++ ['*', '/']) ++ (text ++ back)) =
        some ('/' :: '*' :: body ++ ['*', '/']) := by
      rw [List.append_assoc]
      exact Trivia.take?_block _ noEnd
    have hgap : ('/' :: '*' :: body ++ '*' :: '/' :: text) ++ back =
        ('/' :: '*' :: body ++ ['*', '/']) ++ (text ++ back) := by
      simp
    rw [hgap]
    refine (skipTrivia_of_piece hpiece offset lineBreak afterValue).trans ((ih ..).trans ?_)
    simp [Bool.or_assoc, Bool.and_assoc, Nat.add_assoc]

/-- A scanner goes over white space and comments, and stops in front of what is neither. -/
theorem skipTrivia_of_isTrivia (hgap : IsTrivia gap) (hback : Trivia.take? back = none)
    (offset : Nat) (lineBreak afterValue : Bool) :
    skipTrivia ⟨gap ++ back, offset, lineBreak, afterValue⟩ =
      ⟨back, offset + Utf8.size gap, lineBreak || gap.contains '\n',
        afterValue && !gap.contains '\n'⟩ :=
  (skipTrivia_append hgap back offset lineBreak afterValue).trans (skipTrivia_of_none hback)

end Skipping

/-- What a scanner skips before the next token. -/
def gap (scanner : Scanner) : List Char :=
  scanner.rest.take (scanner.rest.length - scanner.skipTrivia.rest.length)

/-- A scanner stands behind the gap before the next token, and remembers if there was a line feed
in it. -/
theorem skipTrivia_of_gap (scanner : Scanner) :
    scanner.rest = scanner.gap ++ scanner.skipTrivia.rest ∧
      scanner.skipTrivia.lineBreak = (scanner.lineBreak || scanner.gap.contains '\n') ∧
      scanner.skipTrivia.afterValue = (scanner.afterValue && !scanner.gap.contains '\n') := by
  have hskip : ∃ gap, scanner.rest = gap ++ scanner.skipTrivia.rest ∧
      scanner.skipTrivia.lineBreak = (scanner.lineBreak || gap.contains '\n') ∧
      scanner.skipTrivia.afterValue = (scanner.afterValue && !gap.contains '\n') := by
    fun_induction skipTrivia scanner with
    | case1 scanner => exact ⟨[], rfl, by simp, by simp⟩
    | case2 scanner piece taken ih =>
      obtain ⟨gap, hrest, hline, hvalue⟩ := ih
      obtain ⟨rest, hpiece⟩ := Trivia.prefix_of_take? taken
      refine ⟨piece ++ gap, ?_, ?_, ?_⟩
      · rw [List.append_assoc, ← hrest, skip, ← hpiece, List.drop_left]
      · rw [hline, skip]
        simp [Bool.or_assoc]
      · rw [hvalue, skip]
        simp [Bool.and_assoc]
  obtain ⟨gap, hrest, hrest'⟩ := hskip
  have hgap : scanner.gap = gap := by
    rw [Scanner.gap]
    generalize scanner.skipTrivia.rest = rest at hrest
    rw [hrest, List.length_append, Nat.add_sub_cancel, List.take_left]
  rw [hgap]
  exact ⟨hrest, hrest'⟩

end Scanner

end SurfaceGrammar

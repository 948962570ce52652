import Mathlib.Data.List.Forall2
import SurfaceGrammar.Proofs.Token.Gaps

/-!
# A source as tokens and gaps

The texts of the tokens of a source alternate with gaps. With other white space and other comments
in the gaps the source has the same tokens, if every gap begins with white space and has a line
feed in it exactly if the old one had.

* `Woven.ofSource`: a source, cut into the texts of its tokens and the gaps before and behind them.
* `Woven.Refilled`: the same texts with other gaps.
* `Scanner.exists_scan_of_fills`: the token behind a gap and behind what fills it.
* `TokenStream.exists_of_refilled`: the tokens of a source with other gaps.
-/

namespace SurfaceGrammar

/-! ## Cutting a source -/

/-- The text of a token with the gap before it. -/
structure Segment where
  gap : List Char
  text : List Char
deriving DecidableEq

/-- The texts of tokens, each with the gap before it, and the text behind the last one. -/
structure Woven where
  segments : List Segment
  last : List Char
deriving DecidableEq

namespace Woven

/-- The characters in their order. -/
def chars (w : Woven) : List Char :=
  w.segments.flatMap (fun segment => segment.gap ++ segment.text) ++ w.last

/-- The source with these texts and gaps. -/
def source (w : Woven) : String := String.ofList w.chars

@[simp] theorem chars_cons (segment : Segment) (segments : List Segment) (last : List Char) :
    (⟨segment :: segments, last⟩ : Woven).chars =
      segment.gap ++ (segment.text ++ (⟨segments, last⟩ : Woven).chars) := by
  simp [chars]

@[simp] theorem chars_nil (last : List Char) : (⟨[], last⟩ : Woven).chars = last := rfl

end Woven

namespace Scanner

variable {file : String} {scanner next : Scanner} {t : Token}

/-- What follows a scanner, cut at the tokens that it finds. -/
def cut (file : String) (scanner : Scanner) : Woven :=
  match _found : scanner.scan file with
  | .token _ next =>
    let tail := cut file next
    let rest := scanner.skipTrivia.rest
    ⟨⟨scanner.gap, rest.take (rest.length - next.rest.length)⟩ :: tail.segments, tail.last⟩
  | _ => ⟨[], scanner.rest⟩
termination_by scanner.rest.length
decreasing_by exact length_lt_of_scan _found

theorem cut_of_ended {stay : Scanner} (h : scanner.scan file = .ended t stay) :
    scanner.cut file = ⟨[], scanner.rest⟩ := by
  rw [cut]
  split <;> simp_all

/-- The text of a token is a lexeme on its own, and no comment begins with it. -/
theorem exists_text_of_scan (h : scanner.scan file = .token t next) :
    ∃ c own l, scanner.skipTrivia.rest = (c :: own) ++ next.rest ∧ l.text = c :: own ∧
      Lexeme.recognise scanner.skipTrivia.afterValue c own = .ok l ∧
      Trivia.take? (c :: own) = none ∧ t.kind = l.kind ∧ t.value = l.value ∧
      t.newlineBefore = scanner.skipTrivia.lineBreak ∧ next.lineBreak = false ∧
      next.afterValue = t.endsValue := by
  obtain ⟨c, text, l, hrest, hl, hemit⟩ := scan_eq_token_iff.mp h
  have hstarts := Lexeme.prefix_of_recognise hl
  have hpos := Lexeme.length_pos_of_recognise hl
  obtain ⟨d, own, htext⟩ := List.exists_cons_of_ne_nil (List.ne_nil_of_length_pos hpos)
  obtain ⟨after, hafter⟩ := hstarts
  rw [htext, List.cons_append] at hafter
  obtain ⟨rfl, rfl⟩ : d = c ∧ own ++ after = text := List.cons.inj hafter
  have hstop : Trivia.take? ((d :: own) ++ after) = none := by
    rw [List.cons_append, ← hrest]
    exact take?_rest_skipTrivia scanner
  have hown := Lexeme.recognise_of_append hl (by rw [htext]; exact Nat.le_refl _)
  refine ⟨d, own, l, ?_, htext, hown, Trivia.take?_eq_none_of_append hstop, ?_⟩
  · cases hemit
    rw [hrest, htext]
    simp
  · cases hemit
    exact ⟨rfl, rfl, rfl, rfl, rfl⟩

theorem cut_of_token (h : scanner.scan file = .token t next) {text : List Char}
    (htext : scanner.skipTrivia.rest = text ++ next.rest) :
    scanner.cut file =
      ⟨⟨scanner.gap, text⟩ :: (next.cut file).segments, (next.cut file).last⟩ := by
  rw [cut]
  split
  · next u after hscan =>
    cases h.symm.trans hscan
    dsimp only
    rw [htext, List.length_append, Nat.add_sub_cancel, List.take_left]
  · next hscan => exact absurd h (hscan t next)

/-- Nothing of the source is lost. -/
theorem chars_cut (file : String) (scanner : Scanner) :
    (scanner.cut file).chars = scanner.rest := by
  fun_induction cut file scanner with
  | case1 scanner t next hscan tail rest ih =>
    obtain ⟨c, own, -, hrest, -⟩ := exists_text_of_scan hscan
    have htake : rest.take (rest.length - next.rest.length) = c :: own := by
      dsimp only [rest]
      rw [hrest, List.length_append, Nat.add_sub_cancel, List.take_left]
    rw [htake, Woven.chars_cons, ih, ← hrest]
    exact (skipTrivia_of_gap scanner).1.symm
  | case2 => rfl

end Scanner

namespace Woven

/-- The source, cut at its tokens. -/
def ofSource (source file : String) : Woven := (Scanner.ofSource source).cut file

theorem source_ofSource (source file : String) : (ofSource source file).source = source := by
  rw [ofSource, Woven.source, Scanner.chars_cut]
  exact String.ofList_toList

/-! ## Other gaps -/

/-- A text that may stand in the place of a gap: it begins with white space, there is nothing in
it but white space and comments, and there is a line feed in it exactly if there is one in the
gap. -/
structure Fills (gap text : List Char) : Prop where
  begins : BeginsBlank text
  trivia : IsTrivia text
  lineFeed : '\n' ∈ text ↔ '\n' ∈ gap

/-- The texts of the tokens are the same, and other gaps stand between them. -/
structure Refilled (old new : Woven) : Prop where
  segments : List.Forall₂ (fun old new => new.text = old.text ∧ Fills old.gap new.gap)
    old.segments new.segments
  last : Fills old.last new.last

namespace Fills

variable {gap text : List Char}

theorem contains_eq (h : Fills gap text) : text.contains '\n' = gap.contains '\n' := by
  rw [Bool.eq_iff_iff, List.contains_iff_mem, List.contains_iff_mem]
  exact h.lineFeed

end Fills

namespace Refilled

variable {old new : Woven}

/-- White space stands at the beginning. -/
theorem begins (h : Refilled old new) : BeginsBlank new.chars := by
  obtain ⟨segments, last⟩ := new
  obtain ⟨segments', last'⟩ := old
  obtain ⟨hsegments, hlast⟩ := h
  cases segments with
  | nil => exact hlast.begins
  | cons segment segments =>
    obtain ⟨c, rest, hgap, hblank⟩ : BeginsBlank segment.gap := by
      cases hsegments with
      | cons hhead _ => exact hhead.2.begins
    exact ⟨c, _, by rw [chars_cons, hgap, List.cons_append], hblank⟩

end Refilled

end Woven

/-! ## The tokens of a source with other gaps -/

namespace Scanner

/-- A scanner behind a gap and one behind the text that fills it remember the same. -/
theorem skipTrivia_of_fills {scanner other : Scanner} {text back : List Char}
    (h : Woven.Fills scanner.gap text) (hback : Trivia.take? back = none)
    (hrest : other.rest = text ++ back) (hline : other.lineBreak = scanner.lineBreak)
    (hvalue : other.afterValue = scanner.afterValue) :
    other.skipTrivia.rest = back ∧ other.skipTrivia.lineBreak = scanner.skipTrivia.lineBreak ∧
      other.skipTrivia.afterValue = scanner.skipTrivia.afterValue := by
  obtain ⟨-, hline', hvalue'⟩ := skipTrivia_of_gap scanner
  obtain ⟨rest, offset, lineBreak, afterValue⟩ := other
  subst hrest hline hvalue
  rw [skipTrivia_of_isTrivia h.trivia hback, hline', hvalue', h.contains_eq]
  exact ⟨rfl, rfl, rfl⟩

/-- The token behind a gap is the one behind the text that fills it. -/
theorem exists_scan_of_fills {file : String} {scanner next other : Scanner} {t : Token}
    {gap text back : List Char} (h : scanner.scan file = .token t next)
    (hgap : Woven.Fills scanner.gap gap) (htext : scanner.skipTrivia.rest = text ++ next.rest)
    (hrest : other.rest = gap ++ (text ++ back)) (hback : BeginsBlank back)
    (hline : other.lineBreak = scanner.lineBreak) (hvalue : other.afterValue = scanner.afterValue) :
    ∃ u after, other.scan file = .token u after ∧ u.unplaced = t.unplaced ∧ after.rest = back ∧
      after.lineBreak = next.lineBreak ∧ after.afterValue = next.afterValue := by
  obtain ⟨c, own, l, hcut, hl, hown, hstop, hkind, hval, hbreak, hnextLine, hnextValue⟩ :=
    exists_text_of_scan h
  obtain rfl : text = c :: own := List.append_cancel_right (htext.symm.trans hcut)
  -- The lexeme was recognised without the old text behind it, so it is with the new one.
  have hapart := Lexeme.beginsApart_of_blank hback
  have hstop' := Lexeme.take?_append_of_recognise hown hstop hapart
  obtain ⟨hskip, hskipLine, hskipValue⟩ :=
    skipTrivia_of_fills hgap hstop' hrest hline hvalue
  have hother : Lexeme.recognise other.skipTrivia.afterValue c (own ++ back) = .ok l := by
    rw [hskipValue]
    exact Lexeme.recognise_append hown hapart
  refine ⟨_, _, scan_eq_token_iff.mpr ⟨c, own ++ back, l, hskip, hother, rfl⟩, ?_, ?_, ?_, ?_⟩
  · simp [Token.unplaced, hkind, hval, hbreak, hskipLine]
  · simp [hskip, hl]
  · exact hnextLine.symm
  · rw [hnextValue]
    exact Token.endsValue_congr hkind.symm hval.symm

end Scanner

namespace TokenStream

/-- A scanner in front of the same texts with other gaps finds the same tokens. The induction is
on the tokens that are left; in front of each of them both scanners remember the same. -/
theorem exists_of_refilled {file : String} {scanner other : Scanner} {w : Woven} {stop : Token}
    (hending : (ofScanner file scanner).ending = .ok stop) (hw : (scanner.cut file).Refilled w)
    (hrest : other.rest = w.chars) (hline : other.lineBreak = scanner.lineBreak)
    (hvalue : other.afterValue = scanner.afterValue) :
    ∃ us stop', ofScanner file other = ⟨us, .ok stop'⟩ ∧
      us.map Token.unplaced = (ofScanner file scanner).tokens.map Token.unplaced ∧
      stop'.unplaced = stop.unplaced := by
  obtain ⟨segments, last⟩ := w
  fun_induction ofScanner file scanner generalizing other segments with
  | case1 scanner t stay hscan =>
    obtain ⟨hnil, rfl, -⟩ := Scanner.scan_eq_ended_iff.mp hscan
    have hgap : scanner.rest = scanner.gap := by
      have hcut := (Scanner.skipTrivia_of_gap scanner).1
      rwa [hnil, List.append_nil] at hcut
    rw [Scanner.cut_of_ended hscan, hgap] at hw
    obtain ⟨hsegments, hlast⟩ := hw
    cases hsegments
    cases hending
    have hnothing : Trivia.take? [] = none := rfl
    obtain ⟨hskip, hskipLine, -⟩ := Scanner.skipTrivia_of_fills hlast hnothing
      (by simpa using hrest) hline hvalue
    have hother : other.scan file = .ended _ _ :=
      Scanner.scan_eq_ended_iff.mpr ⟨hskip, rfl, rfl⟩
    exact ⟨[], _, ofScanner_of_ended hother, rfl, by
      simp [Token.unplaced, Scanner.endToken, hskipLine]⟩
  | case2 => cases hending
  | case3 scanner t next hscan stream =>
    rename_i ih
    obtain ⟨c, own, -, hcut, -⟩ := Scanner.exists_text_of_scan hscan
    rw [Scanner.cut_of_token hscan hcut] at hw
    obtain ⟨hsegments, hlast⟩ := hw
    cases hsegments with
    | @cons _ segment _ segments hhead htail =>
      obtain ⟨htext, hgap⟩ := hhead
      have hnext : (next.cut file).Refilled ⟨segments, last⟩ := ⟨htail, hlast⟩
      rw [Woven.chars_cons, htext] at hrest
      obtain ⟨u, after, hother, hu, hafter, hafterLine, hafterValue⟩ :=
        Scanner.exists_scan_of_fills hscan hgap hcut hrest hnext.begins hline hvalue
      obtain ⟨us, stop', hus, hunplaced, hstop'⟩ :=
        ih hending hafterLine hafterValue segments hnext hafter
      refine ⟨u :: us, stop', by rw [ofScanner_of_token hother, hus], ?_, hstop'⟩
      rw [List.map_cons, List.map_cons, hu, hunplaced]

end TokenStream

end SurfaceGrammar

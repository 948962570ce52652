import Mathlib.Data.List.TakeWhile
import SurfaceGrammar.Proofs.Token.Gaps
import SurfaceGrammar.Proofs.Token.Tiling

/-!
# Where tokens and comments end

The rules of the scanner are tried in an order, and the first one that applies takes its text. Still
every token is as long as it can be. An operator is the longest spelling that stands at its
beginning, a name and a number end where no character goes on with them, and a literal ends with the
first quote that no backslash takes along. What stands between tokens ends as early as it can: a
block comment with the first `*/`, a line comment in front of the next line feed.

* `EndsUnpaired`: a backslash at the end of a text takes the next character along.
* `Lexeme.ends_of_symbol`, `Lexeme.closes_of_quoted`, `Lexeme.ends_of_unsigned?`: the ends of
  operators, literals and numbers.
* `Munched`: tokens that tile a text, and each of which ends where it has to.
* `TokenStream.munched_ofScanner`: the tokens that a scanner finds.
* `munched_of_tokenize`: the tokens of a source.
-/

namespace SurfaceGrammar

variable {file : String}

/-! ## Literals -/

/-- The number of backslashes at the end of a text. -/
def backslashes (text : List Char) : Nat :=
  (text.reverse.takeWhile (· = '\\')).length

/-- The last backslash of a text stands at its end and is not the second of a pair, so that it takes
along the character behind it. -/
def EndsUnpaired (text : List Char) : Prop :=
  backslashes text % 2 = 1

/-- A text stands between two quotes, on one line. The closing quote is the first one behind the
opening quote that no unpaired backslash stands before. -/
structure ClosesFirst (quote : Char) (text : List Char) : Prop where
  noLineFeed : '\n' ∉ text
  closes : ∃ body, text = quote :: body ++ [quote] ∧ ¬EndsUnpaired body ∧
    ∀ front back, body = front ++ quote :: back → EndsUnpaired front

section Backslashes

variable {quote c e : Char} {front back body : List Char}

theorem backslashes_of_all (h : back.all (· = '\\') = true) : backslashes back = back.length := by
  rw [backslashes, List.takeWhile_eq_self_iff.mpr, List.length_reverse]
  simpa using h

theorem backslashes_append (front back : List Char) : backslashes (front ++ back) =
    if back.all (· = '\\') then back.length + backslashes front else backslashes back := by
  rw [backslashes, List.reverse_append, List.takeWhile_append]
  by_cases h : back.all (· = '\\') = true
  · have hback : (back.reverse.takeWhile (· = '\\')).length = back.reverse.length := by
      rw [List.length_reverse]
      exact backslashes_of_all h
    rw [if_pos hback, if_pos h, List.length_append, List.length_reverse, backslashes]
  · have hback : (back.reverse.takeWhile (· = '\\')).length ≠ back.reverse.length := by
      rw [← List.all_reverse] at h
      intro hlength
      rw [← (List.takeWhile_prefix _).eq_of_length hlength] at h
      exact h List.all_takeWhile
    rw [if_neg hback, if_neg h, backslashes]

/-- What stands before a text does not matter if it does not end with an unpaired backslash. -/
theorem endsUnpaired_append (h : ¬EndsUnpaired front) (back : List Char) :
    EndsUnpaired (front ++ back) ↔ EndsUnpaired back := by
  rw [EndsUnpaired, backslashes_append]
  split
  · next hall =>
    rw [EndsUnpaired] at h ⊢
    rw [backslashes_of_all hall]
    omega
  · rfl

theorem not_endsUnpaired_plain (h : c ≠ '\\') : ¬EndsUnpaired [c] := by
  simp [EndsUnpaired, backslashes, h]

theorem not_endsUnpaired_escape (e : Char) : ¬EndsUnpaired ['\\', e] := by
  by_cases h : e = '\\'
  · subst h
    simp [EndsUnpaired, backslashes]
  · simp [EndsUnpaired, backslashes, h]

namespace Lexeme

/-- No unpaired backslash stands at the end of a body. The induction goes over its parts, which are
single characters and backslashes with the character that they take along. -/
theorem InsideQuotes.not_endsUnpaired (h : InsideQuotes quote body) : ¬EndsUnpaired body := by
  induction h with
  | nil => simp [EndsUnpaired, backslashes]
  | @plain c body _ _ hbackslash _ ih =>
    rwa [← List.singleton_append, endsUnpaired_append (not_endsUnpaired_plain hbackslash)]
  | @escape e body _ _ _ ih =>
    exact fun h => ih ((endsUnpaired_append (not_endsUnpaired_escape e) body).mp h)

/-- An unpaired backslash stands before every quote in a body. -/
theorem InsideQuotes.endsUnpaired (h : InsideQuotes quote body)
    (hcut : body = front ++ quote :: back) : EndsUnpaired front := by
  induction h generalizing front with
  | nil => simp at hcut
  | @plain c body hquote _ hbackslash _ ih =>
    cases front with
    | nil => exact absurd (List.cons.inj hcut).1 hquote
    | cons d front =>
      obtain ⟨rfl, htail⟩ := List.cons.inj hcut
      rw [← List.singleton_append, endsUnpaired_append (not_endsUnpaired_plain hbackslash)]
      exact ih htail
  | @escape e body hquote _ _ ih =>
    match front with
    | [] => exact absurd (List.cons.inj hcut).1 hquote
    | [d] =>
      obtain ⟨rfl, -⟩ := List.cons.inj hcut
      simp [EndsUnpaired, backslashes]
    | d :: d' :: front =>
      obtain ⟨rfl, htail⟩ := List.cons.inj hcut
      obtain ⟨rfl, hinner⟩ := List.cons.inj htail
      exact (endsUnpaired_append (not_endsUnpaired_escape _) front).mpr (ih hinner)

theorem InsideQuotes.noLineFeed (h : InsideQuotes quote body) : '\n' ∉ body := by
  induction h with
  | nil => simp
  | plain _ hline _ _ ih => simp [ih, hline.symm]
  | escape _ hline _ ih => simp [ih, hline.symm]

theorem closesFirst_of_quoted {kind : TokenKind} {text : List Char} {l : Lexeme}
    (hquote : quote ≠ '\n') (h : quoted kind quote text = .ok l) :
    l.kind = kind ∧ ClosesFirst quote l.text := by
  obtain ⟨body, value, hbody, -, -, rfl⟩ := quoted_eq_ok_iff.mp h
  obtain ⟨hinside, -⟩ := body?_eq_some_iff.mp hbody
  refine ⟨rfl, ?_, body, rfl, hinside.not_endsUnpaired, fun _ _ hcut => hinside.endsUnpaired hcut⟩
  simp [hinside.noLineFeed, hquote.symm]

end Lexeme

end Backslashes

/-! ## Operators and punctuation marks -/

/-- The text begins as a comment does, whether the comment is closed or not. -/
def BeginsComment (text : List Char) : Prop :=
  ['/', '/'] <+: text ∨ ['/', '*'] <+: text

/-- A text is that of an operator or punctuation mark, and no longer one stands in its place. -/
structure IsLongest (kind : TokenKind) (text rest : List Char) : Prop where
  mem : (text, kind) ∈ symbols
  length_le : ∀ entry ∈ symbols, entry.1 <+: text ++ rest → entry.1.length ≤ text.length

/-- In the table of the symbols a spelling stands before those that it begins with. -/
theorem symbols_pairwise : symbols.Pairwise fun first second => ¬first.1 <+: second.1 := by
  decide

namespace Lexeme

variable {afterValue : Bool} {c : Char} {text rest digits : List Char} {l : Lexeme}

/-- The first spelling of the table that stands at the beginning of a text is the longest one. -/
theorem isLongest_of_symbol (h : symbol c text = .ok l) (hrest : c :: text = l.text ++ rest) :
    IsLongest l.kind l.text rest := by
  obtain ⟨spelling, kind, before, after, hstarts, hsymbols, hbefore, rfl⟩ := symbol_eq_ok_iff.mp h
  rw [hrest] at hstarts hbefore
  have hordered := symbols_pairwise
  rw [hsymbols, List.pairwise_append] at hordered
  refine ⟨by simp [hsymbols], fun entry hentry hprefix => ?_⟩
  rw [hsymbols, List.mem_append, List.mem_cons] at hentry
  obtain hentry | rfl | hentry := hentry
  · exact absurd hprefix (hbefore entry hentry)
  · exact Nat.le_refl _
  · -- A longer spelling further on would begin with the one that was taken.
    have hnot : ¬spelling <+: entry.1 := List.rel_of_pairwise_cons hordered.2.1 hentry
    refine Nat.le_of_not_lt fun hlt => hnot ?_
    exact List.prefix_of_prefix_length_le hstarts hprefix (Nat.le_of_lt hlt)

/-- A minus in front of a digit is the longest spelling that stands there. -/
theorem isLongest_minus (h : unsigned? rest = some digits) : IsLongest .dash ['-'] rest := by
  obtain ⟨d, more, rfl⟩ : ∃ d more, rest = d :: more := by
    cases rest with
    | nil => cases h
    | cons d more => exact ⟨d, more, rfl⟩
  have hdigit := isDigit_of_unsigned? h
  have hnone : ∀ entry ∈ symbols, entry.1.any Char.isDigit = false := by decide
  refine ⟨by decide, fun entry hentry hprefix => Nat.le_of_not_lt fun hlt => ?_⟩
  have hpair : ['-', d] <+: entry.1 := List.prefix_of_prefix_length_le ⟨more, rfl⟩ hprefix hlt
  exact List.any_eq_false.mp (hnone entry hentry) d (hpair.subset (by simp)) hdigit

end Lexeme

/-! ## Tokens -/

/-- The text of a token is as long as it can be in front of a text, and a literal ends with the
first quote that closes it. -/
def EndsRight (kind : TokenKind) (text rest : List Char) : Prop :=
  match kind with
  | .identifier => ∀ c ∈ rest.head?, Lexeme.continuesName c = false
  | .number => Lexeme.EndsDigits rest ∧ ('.' ∉ text → ¬Lexeme.BeginsFraction rest)
  | .string => ClosesFirst '"' text
  | .char => ClosesFirst '\'' text
  | _ => IsLongest kind text rest ∧ ¬BeginsComment (text ++ rest)

theorem EndsRight.of_symbol {kind : TokenKind} {text rest : List Char}
    (h : IsLongest kind text rest) (hcomment : ¬BeginsComment (text ++ rest)) :
    EndsRight kind text rest := by
  have hmark : ∀ entry ∈ symbols, entry.2 ∉ [.identifier, .number, .string, .char] := by decide
  have hkind := hmark _ h.mem
  unfold EndsRight
  split
  · simp at hkind
  · simp at hkind
  · simp at hkind
  · simp at hkind
  · exact ⟨h, hcomment⟩

namespace Lexeme

variable {afterValue : Bool} {c : Char} {text rest digits : List Char} {l : Lexeme}

/-- A number goes as far as its digits, with those of a fraction if a point and a digit follow. -/
theorem ends_of_unsigned? (h : unsigned? text = some digits) (hrest : text = digits ++ rest) :
    EndsDigits rest ∧ ('.' ∉ digits → ¬BeginsFraction rest) := by
  obtain ⟨whole, rest', -, -, htext, hends, hcases⟩ := unsigned?_eq_some_iff.mp h
  obtain rfl := List.append_cancel_left (hrest.symm.trans htext)
  refine ⟨hends, fun hpoint => ?_⟩
  obtain ⟨-, hfraction⟩ | ⟨fraction, -, -, rfl⟩ := hcases
  · exact hfraction
  · simp at hpoint

/-- A complete comment is passed over, and one that is not closed is an error. -/
theorem not_beginsComment (h : Trivia.take? (c :: text) = none)
    (hopen : ¬(c = '/' ∧ text.head? = some '*')) : ¬BeginsComment (c :: text) := by
  rintro (⟨more, hline⟩ | ⟨more, hblock⟩)
  · rw [← hline] at h
    cases h
  · obtain ⟨rfl, rfl⟩ := List.cons.inj hblock
    exact hopen ⟨rfl, rfl⟩

/-- A lexeme ends where it has to. The cases are those of what a lexeme looks like. -/
theorem endsRight_of_recognise (htrivia : Trivia.take? (c :: text) = none)
    (h : recognise afterValue c text = .ok l) (hrest : c :: text = l.text ++ rest) :
    EndsRight l.kind l.text rest := by
  cases recognise_eq_ok_iff.mp h with
  | name starts =>
    intro d hd
    obtain rfl : rest = text.dropWhile continuesName :=
      List.append_cancel_left
        ((List.cons.inj hrest).2.symm.trans List.takeWhile_append_dropWhile.symm)
    have hhead := List.head?_dropWhile_not continuesName text
    rw [Option.mem_def.mp hd] at hhead
    simpa using hhead
  | string literal =>
    obtain ⟨hkind, hcloses⟩ := closesFirst_of_quoted (by decide) literal
    rw [hkind]
    exact hcloses
  | char literal =>
    obtain ⟨hkind, hcloses⟩ := closesFirst_of_quoted (by decide) literal
    rw [hkind]
    exact hcloses
  | minus operand operator =>
    obtain ⟨-, rfl⟩ := List.cons.inj hrest
    refine .of_symbol (isLongest_minus operand) (not_beginsComment htrivia ?_)
    simp
  | negative operand sign =>
    obtain ⟨hends, hpoint⟩ := ends_of_unsigned? operand (List.cons.inj hrest).2
    exact ⟨hends, fun h => hpoint fun hmem => h (List.mem_cons_of_mem _ hmem)⟩
  | number starts number => exact ends_of_unsigned? number hrest
  | symbol noName noDigit noQuote noComment noNumber mark =>
    exact .of_symbol (isLongest_of_symbol mark hrest)
      (hrest ▸ not_beginsComment htrivia noComment)

end Lexeme

/-- A token that a scanner finds ends where it has to. -/
theorem Scanner.endsRight_of_scan {scanner next : Scanner} {t : Token} {text : List Char}
    (h : scanner.scan file = .token t next)
    (htext : scanner.skipTrivia.rest = text ++ next.rest) : EndsRight t.kind text next.rest := by
  obtain ⟨c, more, l, hrest, hl, hemit⟩ := scan_eq_token_iff.mp h
  have hnone : Trivia.take? (c :: more) = none := hrest ▸ take?_rest_skipTrivia scanner
  obtain ⟨back, hback⟩ := Lexeme.prefix_of_recognise hl
  cases hemit
  have hnext : scanner.skipTrivia.rest.drop l.text.length = back := by
    rw [hrest, ← hback, List.drop_left]
  rw [hnext, hrest, ← hback] at htext
  rw [hnext]
  obtain rfl := List.append_cancel_right htext
  exact Lexeme.endsRight_of_recognise hnone hl hback.symm

/-! ## The tokens of a source -/

/-- Tokens that stand one after another, from an offset of a source to its end, each of which ends
where it has to. Between two of them stands white space and comments: a block comment there ends
with the first `*/`, and a line comment in front of the next line feed. Only the last gap may end
with a line comment that no line feed closes. -/
inductive Munched (file : String) : Nat → List Char → List Token → Prop
  | last {offset : Nat} {gap : List Char} {stop : Token} (trivia : IsTrivia gap ∨ IsOpen gap)
      (kind : stop.kind = .eof) :
      Munched file offset gap [stop]
  | token {offset : Nat} {gap text rest : List Char} {t : Token} {ts : List Token}
      (trivia : IsTrivia gap) (covers : t.Covers file (offset + Utf8.size gap) text)
      (ends : EndsRight t.kind text rest)
      (tail : Munched file (offset + Utf8.size gap + Utf8.size text) rest ts) :
      Munched file offset (gap ++ text ++ rest) (t :: ts)

/-- The tokens that a scanner finds end where they have to. -/
theorem TokenStream.munched_ofScanner {scanner : Scanner} {stop : Token}
    (h : (ofScanner file scanner).ending = .ok stop) :
    Munched file scanner.offset scanner.rest ((ofScanner file scanner).tokens ++ [stop]) := by
  fun_induction ofScanner file scanner with
  | case1 scanner t stay hscan =>
    cases h
    obtain ⟨hgap, htrivia, hkind, -⟩ := Scanner.rest_of_ended hscan
    rw [hgap, List.nil_append]
    exact .last htrivia hkind
  | case2 => cases h
  | case3 scanner t next hscan stream =>
    rename_i ih
    obtain ⟨text, htext, hsource, htrivia, hcovers, hoffset, -⟩ :=
      Scanner.exists_covers_of_scan hscan
    rw [hsource]
    exact .token htrivia hcovers (Scanner.endsRight_of_scan hscan htext) (hoffset ▸ ih h)

/-- Every token of a source is as long as it can be. An operator or punctuation mark is the longest
spelling that stands at its beginning, and no comment begins there; no character of a name follows a
name, no digit a number, and no point with a digit a number without a fraction; and a literal is on
one line and ends with the first quote that no unpaired backslash stands before. A block comment
between tokens ends with the first `*/`, and a line comment in front of the next line feed. -/
theorem munched_of_tokenize {source file : String} {ts : List Token}
    (h : tokenize source file = .ok ts) : Munched file 0 source.toList ts := by
  obtain ⟨us, stop, hstream, rfl⟩ := tokenize_eq_ok_iff.mp h
  have hending : (TokenStream.ofSource source file).ending = .ok stop := by rw [hstream]
  have hmunched := TokenStream.munched_ofScanner hending
  change Munched file 0 source.toList ((TokenStream.ofSource source file).tokens ++ [stop])
    at hmunched
  rwa [hstream] at hmunched

/-- An arrow behind a minus, and a quote behind an escaped backslash. -/
theorem munched_of_tokenize_quote :
    let tokens : List Token :=
      [⟨.dash, "-", ⟨⟨0, "shell"⟩, ⟨1, "shell"⟩⟩, false⟩,
        ⟨.arrow, "->", ⟨⟨1, "shell"⟩, ⟨3, "shell"⟩⟩, false⟩,
        ⟨.string, "\"\\", ⟨⟨8, "shell"⟩, ⟨14, "shell"⟩⟩, false⟩,
        ⟨.eof, "EOF", ⟨⟨14, "shell"⟩, ⟨14, "shell"⟩⟩, false⟩]
    tokenize "-->/***/\"\\\"\\\\\"" "shell" = .ok tokens ∧
      Munched "shell" 0 "-->/***/\"\\\"\\\\\"".toList tokens := by
  intro tokens
  have htokens : tokenize "-->/***/\"\\\"\\\\\"" "shell" = .ok tokens := by decide +kernel
  exact ⟨htokens, munched_of_tokenize htokens⟩

end SurfaceGrammar

import Mathlib.Data.List.Forall2
import SurfaceGrammar.Proofs.Token.Joins

/-!
# Lexemes with white space before them

A text that goes around another one is written as lexemes, each with white space before it. A
scanner reads it token by token, and it comes to what stands behind with nothing in its memory but
whether the last token ends a value.

* `Spaced`: a lexeme with the white space before it.
* `Spaced.tokensAt`: the tokens of such lexemes at a place.
* `Spaced.Written`: each lexeme is recognised in front of what follows it.
* `Scanner.reads_of_written`: a scanner reads these tokens.
* `TokenStream.ofScanner_blank`: white space before a text.
* `TokenStream.exists_ofScanner_of_written`: such lexemes at the end of a source.
-/

namespace SurfaceGrammar

theorem blank_space : ∀ c ∈ [' '], isWhitespace c = true := List.forall_mem_singleton.mpr rfl

/-- A lexeme with the white space before it. -/
structure Spaced where
  gap : List Char
  lexeme : Lexeme

namespace Spaced

/-- The characters of lexemes with the white space before each. -/
def chars (xs : List Spaced) : List Char := xs.flatMap fun x => x.gap ++ x.lexeme.text

/-- The token is that of the lexeme, and a line break stands before it if there is one in the white
space. -/
structure Spells (x : Spaced) (t : Token) : Prop where
  kind : t.kind = x.lexeme.kind
  value : t.value = x.lexeme.value
  newlineBefore : t.newlineBefore = x.gap.contains '\n'

/-- The token of the lexeme, with the white space before it at a place. -/
def tokenAt (x : Spaced) (file : String) (offset : Nat) : Token :=
  x.lexeme.tokenAt file (offset + Utf8.size x.gap) (x.gap.contains '\n')

/-- The tokens of lexemes with white space before each, of which the first one begins at a place. -/
def tokensAt (file : String) : Nat → List Spaced → List Token
  | _, [] => []
  | offset, x :: xs =>
    x.tokenAt file offset ::
      tokensAt file (offset + Utf8.size x.gap + Utf8.size x.lexeme.text) xs

/-- Nothing but white space stands before the lexemes, and each is recognised in front of those
after it and of the text behind them. -/
inductive Written (back : List Char) : List Spaced → Prop
  | nil : Written back []
  | cons {x : Spaced} {xs : List Spaced} (blank : ∀ c ∈ x.gap, isWhitespace c = true)
      (stands : ∀ afterValue, x.lexeme.Stands afterValue (chars xs ++ back))
      (tail : Written back xs) : Written back (x :: xs)

/-- Whether the last lexeme ends a value. -/
def endsValue (afterValue : Bool) (xs : List Spaced) : Bool :=
  xs.foldl (fun _ x => x.lexeme.token.endsValue) afterValue

variable {x : Spaced} {xs ys : List Spaced} {back : List Char}

@[simp] theorem chars_nil : chars [] = [] := rfl

@[simp] theorem chars_cons : chars (x :: xs) = x.gap ++ (x.lexeme.text ++ chars xs) := by
  simp [chars]

@[simp] theorem chars_append : chars (xs ++ ys) = chars xs ++ chars ys := List.flatMap_append

theorem endsValue_append (afterValue : Bool) (xs ys : List Spaced) :
    endsValue afterValue (xs ++ ys) = endsValue (endsValue afterValue xs) ys :=
  List.foldl_append

theorem spells_tokensAt (file : String) (offset : Nat) (xs : List Spaced) :
    List.Forall₂ Spells xs (tokensAt file offset xs) := by
  induction xs generalizing offset with
  | nil => exact .nil
  | cons x xs ih => exact .cons ⟨rfl, rfl, rfl⟩ (ih _)

/-- The tokens of two lists of lexemes. -/
theorem exists_of_append {ts : List Token} (h : List.Forall₂ Spells (xs ++ ys) ts) :
    ∃ us vs, ts = us ++ vs ∧ List.Forall₂ Spells xs us ∧ List.Forall₂ Spells ys vs := by
  induction xs generalizing ts with
  | nil => exact ⟨[], ts, rfl, .nil, h⟩
  | cons x xs ih =>
    obtain _ | ⟨hhead, htail⟩ := h
    obtain ⟨us, vs, rfl, hus, hvs⟩ := ih htail
    exact ⟨_ :: us, vs, rfl, .cons hhead hus, hvs⟩

theorem Written.append (h : Written (chars ys ++ back) xs) (h' : Written back ys) :
    Written back (xs ++ ys) := by
  induction h with
  | nil => exact h'
  | @cons x xs blank stands _ ih =>
    have htext : chars (xs ++ ys) ++ back = chars xs ++ (chars ys ++ back) := by
      rw [chars_append, List.append_assoc]
    exact .cons blank (fun afterValue => htext ▸ stands afterValue) ih

end Spaced

open Spaced

namespace Scanner

variable {x : Spaced} {back : List Char}

/-- The token of a lexeme behind white space. -/
theorem scan_of_spaced (file : String) (hgap : ∀ c ∈ x.gap, isWhitespace c = true)
    (hl : ∀ afterValue, x.lexeme.Stands afterValue back) (offset : Nat) (afterValue : Bool) :
    scan file ⟨x.gap ++ (x.lexeme.text ++ back), offset, false, afterValue⟩ =
      .token (x.tokenAt file offset)
        ⟨back, offset + Utf8.size x.gap + Utf8.size x.lexeme.text, false,
          x.lexeme.token.endsValue⟩ := by
  have htext : Trivia.take? (x.lexeme.text ++ back) = none := by
    obtain ⟨c, text, htext, hnone, -⟩ := hl false
    rw [htext, hnone]
  have hskip := skipTrivia_of_isTrivia (.of_blank hgap) htext offset false afterValue
  have hscan := scan_of_stands file (by rw [hskip]) (by rw [hskip]; exact hl _)
  rwa [hskip, Bool.false_or] at hscan

/-- The tokens of lexemes with white space before each. The induction is on the lexemes. -/
theorem reads_of_written {xs : List Spaced} (file : String) (h : Written back xs)
    (offset : Nat) (afterValue : Bool) :
    Reads file ⟨chars xs ++ back, offset, false, afterValue⟩ (tokensAt file offset xs)
      ⟨back, offset + Utf8.size (chars xs), false, endsValue afterValue xs⟩ := by
  induction h generalizing offset afterValue with
  | nil => exact .refl _
  | @cons x xs blank stands _ ih =>
    have hall := Reads.step (scan_of_spaced file blank stands offset afterValue)
      (ih (offset + Utf8.size x.gap + Utf8.size x.lexeme.text) x.lexeme.token.endsValue)
    rw [tokensAt]
    simp only [Nat.add_assoc, ← List.append_assoc] at hall
    simp only [chars_cons, Utf8.size_append, Nat.add_assoc, ← List.append_assoc]
    exact hall

end Scanner

namespace TokenStream

/-- White space before a text adds to the offsets, and a line feed in it shows. -/
theorem ofScanner_blank (file : String) {gap : List Char} (hgap : ∀ c ∈ gap, isWhitespace c = true)
    (text : List Char) (offset : Nat) :
    ofScanner file ⟨gap ++ text, offset, false, false⟩ =
      ofScanner file ⟨text, offset + Utf8.size gap, gap.contains '\n', false⟩ := by
  have hskip := Scanner.skipTrivia_append (.of_blank hgap) text offset false false
  rw [Bool.false_or, Bool.false_and] at hskip
  exact ofScanner_congr (Scanner.scan_of_skipTrivia hskip)

/-- The tokens of a text that ends with lexemes. -/
theorem exists_ofScanner_of_written {xs : List Spaced} (file : String) (h : Written [] xs)
    (offset : Nat) (afterValue : Bool) : ∃ stop,
    ofScanner file ⟨chars xs, offset, false, afterValue⟩ = ⟨tokensAt file offset xs, .ok stop⟩ := by
  have hreads := Scanner.reads_of_written file h offset afterValue
  rw [List.append_nil] at hreads
  obtain ⟨stop, stay, hend⟩ : ∃ stop stay, Scanner.scan file ⟨[], offset + Utf8.size (chars xs),
      false, Spaced.endsValue afterValue xs⟩ = .ended stop stay :=
    ⟨_, _, Scanner.scan_eq_ended_iff.mpr ⟨by rw [Scanner.skipTrivia_of_none rfl], rfl, rfl⟩⟩
  refine ⟨stop, ?_⟩
  rw [ofScanner_of_reads hreads, ofScanner_of_ended hend, List.append_nil]

end TokenStream

end SurfaceGrammar

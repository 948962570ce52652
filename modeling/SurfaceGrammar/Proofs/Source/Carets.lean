import SurfaceGrammar.Diagnostic
import SurfaceGrammar.Proofs.Source.Lines

/-!
# The caret of a diagnostic

The last line of a diagnostic is a margin, `| ` and a row of dashes with the caret behind it. The
line of the error is quoted without its indentation, so the caret should stand as many characters to
the right as the line has between its indentation and the error. It stands as many bytes to the
right: the row is as long as the column of the lookup, and the lookup counts bytes.

* `Diagnostic.caretColumn`: the length of the row before the caret, read off a diagnostic.
* `Diagnostic.shown`: what stands between the indentation of a line and an error on it.
* `Diagnostic.caretColumn_render`: where the caret of every diagnostic stands.
-/

namespace SurfaceGrammar.Diagnostic

/-- The number of characters between `| ` and the caret on the last line of a diagnostic. -/
def caretColumn (diagnostic : String) : Nat :=
  ((((lastLine diagnostic.toList).dropWhile (· ≠ '|')).drop 2).takeWhile (· ≠ '^')).length

/-- Whether the place between two parts of a source lies inside the indentation of its line. -/
def InIndent (front back : List Char) : Prop :=
  (∀ c ∈ lastLine front, isIndent c = true) ∧ ∃ c ∈ back.head?, isIndent c = true

/-- What stands between the indentation of the line and the end of `front`. -/
def shown (front : List Char) : List Char :=
  (lastLine front).dropWhile isIndent

/-! ## The last line -/

/-- The last line of a diagnostic: a margin of the width of the line numbers, and a caret in some
column. -/
def caretLine (margin column : Nat) : List Char :=
  List.replicate margin ' ' ++ '|' :: ' ' :: (List.replicate column '-' ++ ['^'])

theorem lineFeed_not_mem_caretLine (margin column : Nat) : '\n' ∉ caretLine margin column := by
  simp [caretLine]

theorem caretColumn_of_caretLine {diagnostic : String} {above : List Char} {margin column : Nat}
    (h : diagnostic.toList = above ++ '\n' :: caretLine margin column) :
    caretColumn diagnostic = column := by
  have hmargin : ∀ c ∈ List.replicate margin ' ', decide (c ≠ '|') = true := by
    intro c hc
    rw [List.eq_of_mem_replicate hc]
    rfl
  have hdashes : ∀ c ∈ List.replicate column '-', decide (c ≠ '^') = true := by
    intro c hc
    rw [List.eq_of_mem_replicate hc]
    rfl
  rw [caretColumn, h, lastLine_append_lineFeed,
    lastLine_of_not_mem (lineFeed_not_mem_caretLine margin column), caretLine,
    List.dropWhile_append_of_pos hmargin, List.dropWhile_cons_of_neg (by decide)]
  show ((List.replicate column '-' ++ ['^']).takeWhile _).length = column
  rw [List.takeWhile_append_of_pos hdashes, List.takeWhile_cons_of_neg (by decide),
    List.append_nil, List.length_replicate]

theorem toList_padLeft (fill : Char) (width : Nat) (c : Char) :
    (padLeft fill (width + 1) (String.singleton c)).toList = List.replicate width fill ++ [c] := by
  rw [padLeft, String.toList_append, String.toList_ofList, String.length_singleton,
    Nat.add_sub_cancel, String.toList_singleton]

/-- The last line that is written about an error, behind all others. -/
theorem exists_render {error : Error} {source : String} {line : Line}
    (h : lineAt? source error.position.offset.toNat = some line) : ∃ above,
      (render error source).toList = above ++ '\n' ::
        caretLine ((toString line.number).length + 1)
          (line.column - (line.text.takeWhile isIndent).length) := by
  obtain ⟨above, habove⟩ : ∃ above, render error source =
      above ++ (toString line.number ++ " | " ++
          String.ofList (trimEnd (line.text.dropWhile isIndent)) ++ "\n") ++
        (padLeft ' ' ((toString line.number).length + 2) (String.singleton '|') ++ " " ++
          padLeft '-' (line.column - (line.text.takeWhile isIndent).length + 1)
            (String.singleton '^')) := by
    unfold render write
    rw [h]
    cases error.kind.tip? <;> exact ⟨_, rfl⟩
  refine ⟨above.toList ++ (toString line.number ++ " | " ++
    String.ofList (trimEnd (line.text.dropWhile isIndent))).toList, ?_⟩
  rw [habove]
  simp only [String.toList_append, toList_padLeft, caretLine, List.append_assoc]
  rfl

/-! ## The place of the caret -/

section Place

variable {front back : List Char}

/-- The indentation of a line ends before a place that does not lie inside it. -/
theorem takeWhile_isIndent {line : List Char} (h : ¬InIndent front back)
    (hline : line.head? = back.head?) :
    (lastLine front ++ line).takeWhile isIndent = (lastLine front).takeWhile isIndent := by
  rw [List.takeWhile_append]
  split
  · next hlength =>
    -- everything before the place is indentation, so the line does not go on with one
    have hwhole := (List.takeWhile_prefix isIndent).eq_of_length hlength
    have hall : ∀ c ∈ lastLine front, isIndent c = true := by
      rw [← hwhole]
      exact List.all_eq_true.mp List.all_takeWhile
    cases line with
    | nil => rw [List.takeWhile_nil, List.append_nil, hwhole]
    | cons c line =>
      have hc : ¬isIndent c = true := fun hc => h ⟨hall, c, hline ▸ rfl, hc⟩
      rw [List.takeWhile_cons_of_neg hc, List.append_nil, hwhole]
  · rfl

/-- A text has as many bytes as characters when each character has one byte. -/
theorem size_eq_length_iff {text : List Char} :
    Utf8.size text = text.length ↔ ∀ c ∈ text, c.utf8Size = 1 := by
  induction text with
  | nil => exact ⟨fun _ _ hc => (nomatch hc), fun _ => rfl⟩
  | cons c text ih =>
    have hpos := c.utf8Size_pos
    have hle := Utf8.length_le_size text
    rw [List.forall_mem_cons, ← ih, Utf8.size_cons, List.length_cons]
    constructor
    · intro h
      exact ⟨by omega, by omega⟩
    · rintro ⟨hc, htext⟩
      omega

/-- The bytes between the indentation of the line and the end of `front`. -/
theorem size_lastLine (front : List Char) :
    Utf8.size (lastLine front) - ((lastLine front).takeWhile isIndent).length =
      Utf8.size (shown front) := by
  have hindent : Utf8.size ((lastLine front).takeWhile isIndent) =
      ((lastLine front).takeWhile isIndent).length := by
    refine size_eq_length_iff.mpr fun c hc => ?_
    have hblank := List.all_eq_true.mp List.all_takeWhile c hc
    simp only [isIndent, Bool.or_eq_true, decide_eq_true_eq] at hblank
    rcases hblank with rfl | rfl <;> rfl
  have hsplit : Utf8.size (lastLine front) =
      Utf8.size ((lastLine front).takeWhile isIndent) + Utf8.size (shown front) := by
    rw [← Utf8.size_append, shown, List.takeWhile_append_dropWhile]
  omega

end Place

/-- Where the caret of a diagnostic stands: behind as many dashes as the line has bytes between its
indentation and the error. The column of the error counts characters, so the caret stands under the
character of that column exactly when each character before it has one byte. -/
theorem caretColumn_render {error : Error} {front back : List Char}
    (hbyte : error.position.byte = Utf8.size front) (hindent : ¬InIndent front back) :
    caretColumn (render error (String.ofList (front ++ back))) = Utf8.size (shown front) ∧
    error.lineColumn? (String.ofList (front ++ back)) =
      some (1 + front.count '\n',
        1 + ((lastLine front).takeWhile isIndent).length + (shown front).length) ∧
    (caretColumn (render error (String.ofList (front ++ back))) = (shown front).length ↔
      ∀ c ∈ shown front, c.utf8Size = 1) := by
  have hcaret : caretColumn (render error (String.ofList (front ++ back))) =
      Utf8.size (shown front) := by
    obtain ⟨line, hhead, hline⟩ := lineAt?_append front back
    rw [← hbyte] at hline
    obtain ⟨above, habove⟩ := exists_render hline
    rw [caretColumn_of_caretLine habove]
    dsimp only
    rw [takeWhile_isIndent hindent hhead, size_lastLine]
  refine ⟨hcaret, ?_, ?_⟩
  · have hsplit : (lastLine front).length =
        ((lastLine front).takeWhile isIndent).length + (shown front).length := by
      rw [← List.length_append, shown, List.takeWhile_append_dropWhile]
    rw [Error.lineColumn?_append hbyte, hsplit, Nat.add_assoc]
  · rw [hcaret]
    exact size_eq_length_iff

/-- A bracket that does not belong behind a string with a character of two bytes: the caret stands
one character too far. -/
theorem caretColumn_render_quoted :
    caretColumn (render ⟨.unexpectedToken ")" [.semicolon, .eof], .ofOffset 5 "shell"⟩
      "\"é\" )") = 5 ∧
    Error.lineColumn? ⟨.unexpectedToken ")" [.semicolon, .eof], .ofOffset 5 "shell"⟩ "\"é\" )" =
      some (1, 5) :=
  have hindent : ¬InIndent "\"é\" ".toList ")".toList := fun h =>
    absurd (h.1 '"' (by decide)) (by decide)
  have hcaret := @caretColumn_render
    ⟨.unexpectedToken ")" [.semicolon, .eof], .ofOffset 5 "shell"⟩ "\"é\" ".toList ")".toList rfl
    hindent
  ⟨hcaret.1, hcaret.2.1⟩

/-- The caret does not always stand as many characters to the right as the line has before the
error. -/
theorem not_forall_caretColumn :
    ¬∀ (error : Error) (front back : List Char), error.position.byte = Utf8.size front →
      ¬InIndent front back →
      caretColumn (render error (String.ofList (front ++ back))) = (shown front).length := by
  intro hall
  have hindent : ¬InIndent "\"é\" ".toList ")".toList := fun h =>
    absurd (h.1 '"' (by decide)) (by decide)
  have hcaret := hall ⟨.unexpectedToken ")" [.semicolon, .eof], .ofOffset 5 "shell"⟩
    "\"é\" ".toList ")".toList rfl hindent
  exact absurd hcaret (by decide +kernel)

end SurfaceGrammar.Diagnostic

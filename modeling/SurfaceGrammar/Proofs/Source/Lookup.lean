import SurfaceGrammar.Proofs.Source.Lines

/-!
# Looking up a line

An offset counts bytes, and may lie inside a character. What the lookup of a line gives is therefore
stated on the bytes of the source: the line feeds before the offset give the number, and the last of
them the beginning of the line. The lookup itself goes over lines of characters; both agree, since
the byte of a line feed belongs to no other character.

* `Utf8.bytes`: the bytes of a text.
* `BeginsLine`, `throughLineFeed`: where the line of an offset begins, and how far it reaches.
* `locate_lines_bytes`: the line of any offset, by the recursion over the lines of a text.
* `lineAt?_bytes`: what the lookup gives for every source and every offset.
-/

namespace SurfaceGrammar

/-- The bytes of a text in UTF-8. -/
def Utf8.bytes (text : List Char) : List UInt8 :=
  text.flatMap String.utf8EncodeChar

/-- The byte of a line feed. -/
def lineFeed : UInt8 := 10

/-- The line of the offset `p` begins at `start`: just after the last line feed before the offset,
or at 0 if there is none. -/
structure BeginsLine (bytes : List UInt8) (p start : Nat) : Prop where
  le : start ≤ p
  behind : ∀ i, start = i + 1 → bytes[i]? = some lineFeed
  clear : ∀ i, start ≤ i → i < p → bytes[i]? ≠ some lineFeed

/-- Bytes up to and including the next line feed, or up to their end. -/
def throughLineFeed : List UInt8 → List UInt8
  | [] => []
  | b :: bytes => if b = lineFeed then [b] else b :: throughLineFeed bytes

/-- What the lookup says of the offset `p`, on a line that begins at `start`, when the lines are
numbered from `number`. -/
structure Line.Spans (line : Line) (number : Nat) (bytes : List UInt8) (p start : Nat) : Prop where
  begins : BeginsLine bytes p start
  number : line.number = number + (bytes.take p).count lineFeed
  column : line.column = p - start
  text : Utf8.bytes line.text = throughLineFeed (bytes.drop start)

/-! ## Bytes of characters -/

namespace Utf8

/-- The bytes of a source are those that it is stored in. -/
theorem bytes_toList (source : String) :
    bytes source.toList = source.toByteArray.data.toList := by
  rw [← source.ofList_toList, String.toByteArray_ofList, String.toList_ofList, List.utf8Encode,
    List.toList_data_toByteArray]
  rfl

@[simp] theorem bytes_append (front back : List Char) :
    bytes (front ++ back) = bytes front ++ bytes back :=
  List.flatMap_append

@[simp] theorem length_bytes (text : List Char) : (bytes text).length = size text := by
  induction text with
  | nil => rfl
  | cons c text ih =>
    rw [size_cons, ← ih, ← String.length_utf8EncodeChar]
    exact List.length_append

/-- The byte of a line feed belongs to no other character. -/
theorem lineFeed_not_mem {c : Char} (h : c ≠ '\n') : lineFeed ∉ String.utf8EncodeChar c := by
  have hvalue : c.val.toNat ≠ 10 := by
    intro hten
    exact h (Char.ext (UInt32.toNat_inj.mp hten))
  have hbyte : ∀ n, n % 256 ≠ 10 → lineFeed ≠ UInt8.ofNat n := by
    intro n hn heq
    apply hn
    rw [← UInt8.toNat_ofNat', ← heq]
    rfl
  -- the first byte of a longer form is at least 192, and each further byte at least 128
  intro hmem
  simp only [String.utf8EncodeChar] at hmem
  split at hmem
  · exact hbyte _ (by omega) (List.mem_singleton.mp hmem)
  · split at hmem
    · simp only [List.mem_cons, List.not_mem_nil, or_false] at hmem
      rcases hmem with hmem | hmem <;> exact hbyte _ (by omega) hmem
    · split at hmem
      · simp only [List.mem_cons, List.not_mem_nil, or_false] at hmem
        rcases hmem with hmem | hmem | hmem <;> exact hbyte _ (by omega) hmem
      · simp only [List.mem_cons, List.not_mem_nil, or_false] at hmem
        rcases hmem with hmem | hmem | hmem | hmem <;> exact hbyte _ (by omega) hmem

theorem lineFeed_not_mem_bytes {text : List Char} (h : '\n' ∉ text) : lineFeed ∉ bytes text := by
  intro hmem
  obtain ⟨c, hc, hbyte⟩ := List.mem_flatMap.mp hmem
  exact lineFeed_not_mem (ne_of_mem_of_not_mem hc h) hbyte

end Utf8

/-! ## Lines of bytes -/

section Bytes

variable {bytes row : List UInt8} {number p q start : Nat} {line line' : Line}

/-- An offset has one line. -/
theorem BeginsLine.unique {other : Nat} (h : BeginsLine bytes p start)
    (hother : BeginsLine bytes p other) : start = other := by
  have hle := h.le
  have hle' := hother.le
  rcases Nat.lt_trichotomy start other with hlt | heq | hgt
  · obtain ⟨i, rfl⟩ : ∃ i, other = i + 1 := Nat.exists_eq_add_of_le' (by omega)
    exact absurd (hother.behind i rfl) (h.clear i (by omega) (by omega))
  · exact heq
  · obtain ⟨i, rfl⟩ : ∃ i, start = i + 1 := Nat.exists_eq_add_of_le' (by omega)
    exact absurd (h.behind i rfl) (hother.clear i (by omega) (by omega))

/-- Up to the first line feed, offsets lie on the line that begins at 0. -/
theorem BeginsLine.first (back : List UInt8) (hrow : lineFeed ∉ row) (hp : p ≤ row.length) :
    BeginsLine (row ++ back) p 0 := by
  refine ⟨Nat.zero_le p, (nomatch ·, ·), ?_⟩
  intro i _ hi hfeed
  rw [List.getElem?_append_left (by omega)] at hfeed
  exact hrow (List.mem_of_getElem? hfeed)

/-- What stands before a line feed moves the lines behind it. -/
theorem BeginsLine.behind_line (row : List UInt8) (h : BeginsLine bytes p start) :
    BeginsLine (row ++ lineFeed :: bytes) (row.length + 1 + p) (row.length + 1 + start) := by
  have hmoved : ∀ i, (row ++ lineFeed :: bytes)[row.length + 1 + i]? = bytes[i]? := by
    intro i
    rw [List.getElem?_append_right (by omega), Nat.add_assoc, Nat.add_sub_cancel_left,
      Nat.add_comm 1 i, List.getElem?_cons_succ]
  refine ⟨Nat.add_le_add_left h.le _, fun i hi => ?_, ?_⟩
  · cases start with
    | zero =>
      obtain rfl : i = row.length := by omega
      rw [List.getElem?_append_right (Nat.le_refl _), Nat.sub_self, List.getElem?_cons_zero]
    | succ j =>
      obtain rfl : i = row.length + 1 + j := by omega
      rw [hmoved]
      exact h.behind j rfl
  · intro i hle hlt
    obtain ⟨j, rfl⟩ : ∃ j, i = row.length + 1 + j := ⟨i - (row.length + 1), by omega⟩
    rw [hmoved]
    exact h.clear j (by omega) (by omega)

theorem throughLineFeed_of_not_mem (h : lineFeed ∉ row) : throughLineFeed row = row := by
  induction row with
  | nil => rfl
  | cons b row ih =>
    rw [List.mem_cons, not_or] at h
    rw [throughLineFeed, if_neg (Ne.symm h.1), ih h.2]

theorem throughLineFeed_append (back : List UInt8) (h : lineFeed ∉ row) :
    throughLineFeed (row ++ lineFeed :: back) = row ++ [lineFeed] := by
  induction row with
  | nil => exact if_pos rfl
  | cons b row ih =>
    rw [List.mem_cons, not_or] at h
    rw [List.cons_append, throughLineFeed, if_neg (Ne.symm h.1), ih h.2, List.cons_append]

/-- A line that stands behind another one. -/
theorem Line.Spans.behind_line (hrow : lineFeed ∉ row) (h : line.Spans (number + 1) bytes p start) :
    line.Spans number (row ++ lineFeed :: bytes) (row.length + 1 + p) (row.length + 1 + start) := by
  have hlength : (row ++ [lineFeed]).length = row.length + 1 := by
    rw [List.length_append, List.length_singleton]
  have hsplit : row ++ lineFeed :: bytes = (row ++ [lineFeed]) ++ bytes := by
    rw [List.append_assoc, List.singleton_append]
  refine ⟨h.begins.behind_line row, ?_, ?_, ?_⟩
  · rw [h.number, hsplit, ← hlength, List.take_length_add_append, List.count_append,
      List.count_append, List.count_eq_zero_of_not_mem hrow, List.count_singleton_self]
    omega
  · rw [h.column]
    omega
  · rw [h.text, hsplit, ← hlength, List.drop_length_add_append]

/-- Later offsets lie on later lines, or further on the same line. -/
theorem Line.Spans.lt {start' : Nat} (hpq : p < q) (h : line.Spans number bytes p start)
    (h' : line'.Spans number bytes q start') :
    line.number < line'.number ∨ line.number = line'.number ∧ line.column < line'.column := by
  have hsplit : bytes.take q = bytes.take p ++ (bytes.drop p).take (q - p) := by
    rw [← List.take_add, Nat.add_sub_cancel' (Nat.le_of_lt hpq)]
  have hcount : line'.number = line.number + ((bytes.drop p).take (q - p)).count lineFeed := by
    rw [h.number, h'.number, hsplit, List.count_append]
    omega
  rcases Nat.eq_zero_or_pos (((bytes.drop p).take (q - p)).count lineFeed) with hzero | hpos
  · -- no line feed stands between the offsets, so both lie on the line of the first
    have hbegins : BeginsLine bytes q start := by
      refine ⟨Nat.le_trans h.begins.le (Nat.le_of_lt hpq), h.begins.behind, ?_⟩
      intro i hi hlt hfeed
      rcases Nat.lt_or_ge i p with hip | hpi
      · exact h.begins.clear i hi hip hfeed
      · refine List.count_eq_zero.mp hzero (List.mem_of_getElem? (i := i - p) ?_)
        rw [List.getElem?_take_of_lt (by omega), List.getElem?_drop, Nat.add_sub_cancel' hpi]
        exact hfeed
    have hstart := h'.begins.unique hbegins
    have hle := h.begins.le
    refine .inr ⟨by omega, ?_⟩
    rw [h.column, h'.column, hstart]
    omega
  · exact .inl (by omega)

end Bytes

/-! ## Lines of characters -/

section Lookup

variable {body text : List Char} {line : Line} {number p : Nat}

/-- The lookup gives nothing behind the lines. -/
theorem locate_eq_none_iff {rows : List (List Char)} (hrows : rows ≠ []) :
    locate number p rows = none ↔ Utf8.size rows.flatten < p := by
  fun_induction locate number p rows with
  | case1 => exact absurd rfl hrows
  | case2 number p last hle =>
    rw [List.flatten_singleton]
    exact ⟨fun h => (nomatch h), fun h => absurd hle (Nat.not_le_of_lt h)⟩
  | case3 number p last hlt =>
    rw [List.flatten_singleton]
    exact ⟨fun _ => Nat.lt_of_not_le hlt, fun _ => rfl⟩
  | case4 number p line next rest hlt =>
    rw [List.flatten_cons, Utf8.size_append]
    exact ⟨fun h => (nomatch h), fun h => by omega⟩
  | case5 number p line next rest hle ih =>
    rw [List.flatten_cons, Utf8.size_append, ih (List.cons_ne_nil next rest)]
    omega

/-- An offset before the first line feed lies on the first line. -/
theorem locate_first (number : Nat) (hbody : '\n' ∉ body) (hp : p ≤ Utf8.size body)
    (htext : text = [] ∨ ∃ more, text = '\n' :: more) :
    ∃ line, locate number p (lines (body ++ text)) = some line ∧
      line.Spans number (Utf8.bytes (body ++ text)) p 0 := by
  have hfeed := Utf8.lineFeed_not_mem_bytes hbody
  have hcount : ∀ back, ((Utf8.bytes body ++ back).take p).count lineFeed = 0 := by
    intro back
    rw [List.take_append_of_le_length (by rwa [Utf8.length_bytes])]
    exact List.count_eq_zero_of_not_mem fun hmem => hfeed (List.mem_of_mem_take hmem)
  have hbegins : ∀ back, BeginsLine (Utf8.bytes body ++ back) p 0 := fun back =>
    .first back hfeed (by rwa [Utf8.length_bytes])
  obtain rfl | ⟨more, rfl⟩ := htext
  · refine ⟨⟨number, body, p⟩, ?_, ?_⟩
    · obtain ⟨line, rest, hback, hlines⟩ := lines_append [] hbody
      cases hback
      rw [hlines, locate, List.append_nil, if_pos hp]
    · rw [Utf8.bytes_append]
      refine ⟨hbegins _, ?_, rfl, ?_⟩
      · rw [hcount, Nat.add_zero]
      · rw [List.drop_zero]
        show Utf8.bytes body = throughLineFeed (Utf8.bytes body ++ [])
        rw [List.append_nil, throughLineFeed_of_not_mem hfeed]
  · refine ⟨⟨number, body ++ ['\n'], p⟩, ?_, ?_⟩
    · obtain ⟨line, rest, hmore⟩ := List.exists_cons_of_ne_nil (lines_ne_nil more)
      rw [lines_append_lineFeed more hbody, hmore, locate, if_pos]
      rw [Utf8.size_append]
      exact Nat.lt_succ_of_le hp
    · rw [Utf8.bytes_append]
      refine ⟨hbegins _, ?_, rfl, ?_⟩
      · rw [hcount, Nat.add_zero]
      · rw [List.drop_zero, Utf8.bytes_append]
        exact (throughLineFeed_append (Utf8.bytes more) hfeed).symm

/-- The line of an offset, which may lie inside a character. The recursion goes over the lines of
the text. -/
theorem locate_lines_bytes (number p : Nat) (text : List Char) (hp : p ≤ Utf8.size text) :
    ∃ line start, locate number p (lines text) = some line ∧
      line.Spans number (Utf8.bytes text) p start := by
  obtain ⟨body, rest, htext, -, hbody, hrest⟩ := Trivia.exists_line text
  rcases Nat.lt_or_ge (Utf8.size body) p with hlt | hle
  · obtain rfl | ⟨more, rfl⟩ := hrest
    · rw [htext, List.append_nil] at hp
      omega
    · rw [htext, Utf8.size_append, Utf8.size_cons] at hp
      obtain ⟨q, rfl⟩ : ∃ q, p = Utf8.size body + 1 + q := ⟨p - (Utf8.size body + 1), by omega⟩
      obtain ⟨line, start, hline, hspans⟩ := locate_lines_bytes (number + 1) q more (by
        have hone : '\n'.utf8Size = 1 := rfl
        omega)
      have hmoved := hspans.behind_line (Utf8.lineFeed_not_mem_bytes hbody)
      rw [Utf8.length_bytes] at hmoved
      refine ⟨line, Utf8.size body + 1 + start, ?_, ?_⟩
      · rw [htext, locate_append_lineFeed number q more hbody, hline]
      · rw [htext, Utf8.bytes_append]
        exact hmoved
  · obtain ⟨line, hline, hspans⟩ := locate_first number hbody hle hrest
    exact ⟨line, 0, htext ▸ hline, htext ▸ hspans⟩
termination_by text.length
decreasing_by
  rw [htext, List.length_append, List.length_cons]
  omega

end Lookup

/-- The lookup of a line gives nothing exactly behind the source. Any other offset, be it inside a
character, lies on the line that begins just after the last line feed before it: the number of the
line counts these line feeds, the column the bytes since, and the text is the whole line with its
line feed. So later offsets lie on later lines, or further on the same line. -/
theorem lineAt?_bytes (source : String) (p : Nat) :
    (lineAt? source p = none ↔ source.utf8ByteSize < p) ∧
    (p ≤ source.utf8ByteSize → ∃ line start, lineAt? source p = some line ∧
      line.Spans 1 (Utf8.bytes source.toList) p start) ∧
    ∀ q line line', p < q → lineAt? source p = some line → lineAt? source q = some line' →
      line.number < line'.number ∨ line.number = line'.number ∧ line.column < line'.column := by
  have hnone : ∀ p, lineAt? source p = none ↔ source.utf8ByteSize < p := by
    intro p
    rw [lineAt?, locate_eq_none_iff (lines_ne_nil source.toList), flatten_lines, Utf8.size_toList]
  have hsome : ∀ p line, lineAt? source p = some line → ∃ start,
      line.Spans 1 (Utf8.bytes source.toList) p start := by
    intro p line hline
    have hle : p ≤ source.utf8ByteSize := by
      refine Nat.le_of_not_lt fun hlt => ?_
      rw [(hnone p).mpr hlt] at hline
      cases hline
    obtain ⟨found, start, hfound, hspans⟩ := locate_lines_bytes 1 p source.toList
      (by rwa [Utf8.size_toList])
    obtain rfl := Option.some.inj (hfound.symm.trans hline)
    exact ⟨start, hspans⟩
  refine ⟨hnone p, ?_, ?_⟩
  · intro hle
    exact locate_lines_bytes 1 p source.toList (by rwa [Utf8.size_toList])
  · intro q line line' hpq hline hline'
    obtain ⟨start, hspans⟩ := hsome p line hline
    obtain ⟨start', hspans'⟩ := hsome q line' hline'
    exact hspans.lt hpq hspans'

/-- An offset inside a character of the first line, and the end of a source without a last line
feed. -/
theorem lineAt?_bytes_two_lines :
    (∃ line start, lineAt? "é\nab" 1 = some line ∧
      line.Spans 1 (Utf8.bytes "é\nab".toList) 1 start) ∧
    ((1 : Nat) < 2 ∨ (1 : Nat) = 2 ∧ (1 : Nat) < 2) :=
  ⟨(lineAt?_bytes "é\nab" 1).2.1 (by decide),
    (lineAt?_bytes "é\nab" 1).2.2 5 ⟨1, "é\n".toList, 1⟩ ⟨2, "ab".toList, 2⟩ (by decide) rfl rfl⟩

end SurfaceGrammar

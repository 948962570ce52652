import SurfaceGrammar.Proofs.Token.Shape

/-!
# Where the tokens of a source stand

In a source whose bytes can be counted with the 32 bits of an offset, every token takes up a
stretch that is not empty, the stretches follow one another without overlapping, and the token
for the end stands behind the last byte.

* `Span.LiesIn`, `Span.Precedes`, `Span.Within`: how spans lie in a source and to one another.
* `Scanner.size`: the number of bytes of a source, which scanning leaves as it is.
* `TokenStream.laidOut_ofSource`: the tokens of a source stand one after another.
-/

namespace SurfaceGrammar

namespace Utf8

theorem utf8ByteSize_ofList (text : List Char) : (String.ofList text).utf8ByteSize = size text := by
  induction text with
  | nil => rfl
  | cons c text ih =>
    rw [← List.singleton_append, String.ofList_append, String.utf8ByteSize_append, ih]
    simp

theorem size_toList (source : String) : size source.toList = source.utf8ByteSize := by
  rw [← utf8ByteSize_ofList, String.ofList_toList]

end Utf8

/-! ## Spans in a source -/

/-- The number of bytes before a position. -/
def Position.byte (p : Position) : Nat := p.offset.toNat

theorem Position.byte_ofOffset {offset : Nat} (file : String) (h : offset < UInt32.size) :
    (ofOffset offset file).byte = offset := by
  rw [byte, toNat_offset_ofOffset, Nat.mod_eq_of_lt h]

namespace Span

/-- The span is not empty and lies in a source of this name with this many bytes. -/
structure LiesIn (file : String) (size : Nat) (span : Span) : Prop where
  startFile : span.start.file = file
  stopFile : span.stop.file = file
  start_lt_stop : span.start.byte < span.stop.byte
  stop_le : span.stop.byte ≤ size

/-- The first span ends before the second one starts, or where it starts. -/
def Precedes (first second : Span) : Prop := first.stop.byte ≤ second.start.byte

/-- The inner span does not reach out of the outer one. -/
def Within (inner outer : Span) : Prop :=
  outer.start.byte ≤ inner.start.byte ∧ inner.stop.byte ≤ outer.stop.byte

end Span

/-! ## Scanners -/

namespace Scanner

variable {file : String} {scanner next last : Scanner} {t : Token} {ts : List Token}

/-- The number of bytes of the source in which a scanner stands. -/
def size (scanner : Scanner) : Nat := scanner.offset + Utf8.size scanner.rest

@[simp] theorem size_ofSource (source : String) :
    (ofSource source).size = source.utf8ByteSize := by
  simp [size, ofSource, Utf8.size_toList]

theorem size_skip {piece : List Char} (h : piece <+: scanner.rest) :
    (scanner.skip piece).size = scanner.size := by
  obtain ⟨rest, hrest⟩ := h
  simp only [size, skip, ← hrest, List.drop_left, Utf8.size_append]
  omega

/-- White space and comments are passed within the source. -/
theorem place_skipTrivia (scanner : Scanner) :
    scanner.skipTrivia.size = scanner.size ∧ scanner.offset ≤ scanner.skipTrivia.offset := by
  fun_induction skipTrivia scanner with
  | case1 => exact ⟨rfl, Nat.le_refl _⟩
  | case2 scanner piece taken ih =>
    refine ⟨ih.1.trans (size_skip (Trivia.prefix_of_take? taken)), Nat.le_trans ?_ ih.2⟩
    simp [skip]

/-- A token begins at the scanner or behind it, and ends where the next scan begins. -/
theorem place_of_scan (h : scanner.scan file = .token t next) : next.size = scanner.size ∧
    ∃ start, t.span = ⟨.ofOffset start file, .ofOffset next.offset file⟩ ∧
      scanner.offset ≤ start ∧ start < next.offset := by
  obtain ⟨c, text, l, hrest, hl, hemit⟩ := scan_eq_token_iff.mp h
  obtain ⟨hsize, hle⟩ := place_skipTrivia scanner
  obtain ⟨more, hmore⟩ := Lexeme.prefix_of_recognise hl
  have hpos := Nat.lt_of_lt_of_le (Lexeme.length_pos_of_recognise hl) (Utf8.length_le_size l.text)
  cases hemit
  refine ⟨?_, scanner.skipTrivia.offset, rfl, hle, Nat.lt_add_of_pos_right hpos⟩
  rw [← hsize]
  simp only [size, hrest, ← hmore, List.drop_left, Utf8.size_append]
  omega

theorem place_of_scan_ended (h : scanner.scan file = .ended t next) :
    t.span.start = .ofOffset scanner.size file := by
  obtain ⟨hsize, -⟩ := place_skipTrivia scanner
  obtain ⟨hrest, rfl, -⟩ := scan_eq_ended_iff.mp h
  simp only [size, hrest, Utf8.size_nil, Nat.add_zero] at hsize
  rw [endToken, hsize]
  rfl

theorem offset_le_size (scanner : Scanner) : scanner.offset ≤ scanner.size :=
  Nat.le_add_right _ _

/-- The tokens that a scanner reads stand one after another between the scanner and the place
where it stops. -/
theorem Reads.places (h : scanner.Reads file ts last) (hsize : scanner.size < UInt32.size) :
    last.size = scanner.size ∧ scanner.offset ≤ last.offset ∧
      (∀ t ∈ ts, t.span.LiesIn file scanner.size ∧ scanner.offset ≤ t.span.start.byte) ∧
      ts.Pairwise fun t u => t.span.Precedes u.span := by
  induction h with
  | refl => simp
  | @step scanner next last t ts head tail ih =>
    obtain ⟨hnext, start, hspan, hle, hlt⟩ := place_of_scan head
    obtain ⟨hlast, hoffset, htokens, hordered⟩ := ih (hnext ▸ hsize)
    have hbound := next.offset_le_size
    have hstart : t.span.start.byte = start := by
      rw [hspan]
      exact Position.byte_ofOffset file (by omega)
    have hstop : t.span.stop.byte = next.offset := by
      rw [hspan]
      exact Position.byte_ofOffset file (by omega)
    refine ⟨hlast.trans hnext, by omega, fun u hu => ?_,
      List.pairwise_cons.mpr ⟨fun u hu => ?_, hordered⟩⟩
    · obtain rfl | hu := List.mem_cons.mp hu
      · refine ⟨⟨by rw [hspan]; rfl, by rw [hspan]; rfl, by omega, by omega⟩, by omega⟩
      · obtain ⟨hlies, hafter⟩ := htokens u hu
        exact ⟨hnext ▸ hlies, by omega⟩
    · obtain ⟨-, hafter⟩ := htokens u hu
      rw [Span.Precedes]
      omega

end Scanner

/-! ## Streams -/

namespace TokenStream

/-- The tokens stand one after another in a source of this name with this many bytes, and the
token for the end stands behind them. -/
structure LaidOut (file : String) (size : Nat) (stream : TokenStream) : Prop where
  tokens : ∀ t ∈ stream.tokens, t.span.LiesIn file size
  ordered : stream.tokens.Pairwise fun t u => t.span.Precedes u.span
  ending : ∀ t, stream.ending = .ok t → t.span.start.file = file ∧ t.span.start.byte = size

/-- The tokens of a source stand one after another in it. -/
theorem laidOut_ofSource {source : String} (file : String)
    (hsize : source.utf8ByteSize < UInt32.size) :
    (ofSource source file).LaidOut file source.utf8ByteSize := by
  obtain ⟨last, hreads, hending⟩ := reads_ofScanner file (Scanner.ofSource source)
  rw [← Scanner.size_ofSource] at hsize ⊢
  obtain ⟨hlast, -, htokens, hordered⟩ := hreads.places hsize
  refine ⟨fun t ht => (htokens t ht).1, hordered, fun t ht => ?_⟩
  obtain ⟨u, stay, hscan, hu⟩ | ⟨error, stay, -, herror⟩ := hending
  · have heq : t = u := by
      rw [ofSource, hu] at ht
      cases ht
      rfl
    rw [heq, Scanner.place_of_scan_ended hscan, hlast]
    exact ⟨rfl, Position.byte_ofOffset file hsize⟩
  · rw [ofSource, herror] at ht
    cases ht

end TokenStream

end SurfaceGrammar

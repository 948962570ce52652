import SurfaceGrammar.Proofs.Grammar.Failures
import SurfaceGrammar.Proofs.Source.Lines
import SurfaceGrammar.Proofs.Token.Tiling

/-!
# Where the errors of a parse stand

An error of a parse stands before a character of the source, or at its end: at the beginning of a
token, at a fault of the lexer, or where a conditional began. It stands at the end exactly if the
input ended too early.

* `Located`: a position between two parts of a source, of which the second may be empty only if the
  input has ended.
* `located_of_parse`: where the error of a parse stands.
* `lineColumn?_of_parse`: the place of the error of a parse, with its line and its column.
-/

namespace SurfaceGrammar

/-- The error is that the input has ended. -/
def ErrorKind.IsEndOfInput (kind : ErrorKind) : Prop :=
  ∃ expected, kind = .unexpectedEndOfInput expected

/-- The error stands between two parts of the source, and the second is empty exactly if the input
has ended. -/
def Error.Located (source file : String) (e : Error) : Prop :=
  ∃ front back, source.toList = front ++ back ∧ (e.kind.IsEndOfInput ↔ back = []) ∧
    e.position = .ofOffset (Utf8.size front) file

variable {source : String} {settings : Settings} {e : Error}

theorem ErrorKind.not_isEndOfInput_of_isLexical {kind : ErrorKind} (h : kind.isLexical = true) :
    ¬kind.IsEndOfInput := by
  rintro ⟨expected, rfl⟩
  cases h

theorem Error.located_of_ne_nil {file : String} {p : Position} {kind : ErrorKind}
    (hkind : ¬kind.IsEndOfInput) (h : ∃ front back, source.toList = front ++ back ∧ back ≠ [] ∧
      p = .ofOffset (Utf8.size front) file) :
    Error.Located source file ⟨kind, p⟩ := by
  obtain ⟨front, back, hsource, hback, rfl⟩ := h
  exact ⟨front, back, hsource, iff_of_false hkind hback, rfl⟩

/-- What stops the tokens of a source. -/
theorem located_of_ending {file : String}
    (h : (TokenStream.ofSource source file).ending = .error e) : e.Located source file :=
  Error.located_of_ne_nil
    (ErrorKind.not_isEndOfInput_of_isLexical (TokenStream.isLexical_ofSource h))
    (TokenStream.exists_front_of_ending h)

/-- A token that is met and is not the one for the end begins before a character. -/
theorem exists_front_of_meets {t : Token} (ht : (Course.ofSource source settings).meets t)
    (hne : t.kind ≠ .eof) : ∃ front back, source.toList = front ++ back ∧ back ≠ [] ∧
      t.span.start = .ofOffset (Utf8.size front) settings.file := by
  rcases ht with ht | hending
  · exact TokenStream.exists_front_of_mem ht
  · exact absurd ((TokenStream.proper_ofScanner ..).ending t hending) hne

/-- The token for the end stands behind the last character. -/
theorem start_of_eof {t : Token} (ht : (Course.ofSource source settings).meets t)
    (heof : t.kind = .eof) :
    t.span.start = .ofOffset (Utf8.size source.toList) settings.file := by
  rcases ht with ht | hending
  · exact absurd heof ((TokenStream.proper_ofScanner ..).tokens t ht).ne_eof
  · obtain ⟨last, hreads, ⟨u, stay, hscan, hok⟩ | ⟨error, stay, -, herror⟩⟩ :=
      TokenStream.reads_ofScanner settings.file (Scanner.ofSource source)
    · cases hok.symm.trans hending
      rw [Scanner.place_of_scan_ended hscan, hreads.size_eq, Scanner.size_ofSource,
        Utf8.size_toList]
    · cases herror.symm.trans hending

/-- An error of the productions, by what they may raise. -/
theorem located_of_raises {s : ParseState} (hs : s.Begins (.ofSource source settings))
    (hending : s.upcoming.ending = (TokenStream.ofSource source settings.file).ending)
    (h : s.Raises (.ofSource source settings) e) : e.Located source settings.file := by
  cases h with
  | unreadable ending => exact located_of_ending (hending ▸ ending)
  | unexpected expected =>
    unfold ParseState.unexpected
    split
    · next heof =>
      refine ⟨source.toList, [], (List.append_nil _).symm, iff_of_true ⟨expected, rfl⟩ rfl, ?_⟩
      exact start_of_eof hs.here heof
    · next hne => exact Error.located_of_ne_nil nofun (exists_front_of_meets hs.here hne)
  | number kind =>
    exact Error.located_of_ne_nil nofun (exists_front_of_meets hs.here (by rw [kind]; nofun))
  | lacking opens _ =>
    obtain ⟨t, ht, hne, rfl⟩ := opens
    exact Error.located_of_ne_nil nofun (exists_front_of_meets ht hne)

/-- Where the error of a parse stands. -/
theorem located_of_parse (h : parse source settings = .error (.error e)) :
    e.Located source settings.file := by
  rcases raises_of_parse h with hending | ⟨s, s', hs, -, hleads, hraises⟩
  · exact located_of_ending hending
  · exact located_of_raises ((ParseState.begins_of_start hs).leadsTo hleads)
      (hleads.ending.trans (ParseState.of_start hs).2.2.2) hraises

/-- Every error of a parse is well located. Its position names the source, lies between two
characters or at the end, and lies at the end exactly if the error is that the input has ended. Its
line is one more than the line feeds before it, and its column one more than the characters behind
the last of them. -/
theorem lineColumn?_of_parse (source : String) (settings : Settings)
    (hsize : source.utf8ByteSize < UInt32.size) (failure : Failure)
    (h : parse source settings = .error failure) :
    ∃ e, failure = .error e ∧ e.position.file = settings.file?.getD "shell" ∧
      ((∃ expected, e.kind = .unexpectedEndOfInput expected) ↔
        e.position.offset.toNat = source.utf8ByteSize) ∧
      ∃ front back, source = front ++ back ∧ e.position.offset.toNat = front.utf8ByteSize ∧
        e.position.offset.toNat ≤ source.utf8ByteSize ∧
        e.lineColumn? source = some (1 + front.toList.count '\n',
          1 + (front.toList.reverse.takeWhile (· ≠ '\n')).length) := by
  obtain ⟨e, rfl⟩ := exists_error_of_parse h
  obtain ⟨front, back, hsource, hend, hposition⟩ := located_of_parse h
  have hsizes := congrArg Utf8.size hsource
  rw [Utf8.size_toList, Utf8.size_append] at hsizes
  have hbyte : e.position.offset.toNat = Utf8.size front := by
    rw [hposition]
    exact Position.byte_ofOffset settings.file (by omega)
  have hback : back = [] ↔ Utf8.size back = 0 := by
    constructor
    · rintro rfl
      rfl
    · intro hzero
      exact List.length_eq_zero_iff.mp (Nat.le_zero.mp (hzero ▸ Utf8.length_le_size back))
  refine ⟨e, rfl, by rw [hposition]; rfl, ?_, String.ofList front, String.ofList back, ?_, ?_, ?_,
    ?_⟩
  · refine hend.trans (hback.trans ?_)
    rw [hbyte]
    omega
  · rw [← String.ofList_append, ← hsource, String.ofList_toList]
  · rw [hbyte, Utf8.utf8ByteSize_ofList]
  · rw [hbyte]
    omega
  · have hcolumn := Error.lineColumn?_append hbyte back
    rw [← hsource, String.ofList_toList] at hcolumn
    rw [hcolumn, String.toList_ofList, lastLine, List.length_reverse]

/-- A name that does not belong there, on the second line behind a character of two bytes. -/
theorem lineColumn?_of_parse_second_line :
    "a\n(\"é\" b".utf8ByteSize < UInt32.size ∧
    parse "a\n(\"é\" b" ⟨some "main", true⟩ =
      .error (.error ⟨.unexpectedToken "b" [.comma, .closeParen], ⟨8, "main"⟩⟩) ∧
    ∃ e, Failure.error ⟨.unexpectedToken "b" [.comma, .closeParen], ⟨8, "main"⟩⟩ = .error e ∧
      e.position.file = "main" ∧
      ((∃ expected, e.kind = .unexpectedEndOfInput expected) ↔
        e.position.offset.toNat = "a\n(\"é\" b".utf8ByteSize) ∧
      ∃ front back, "a\n(\"é\" b" = front ++ back ∧
        e.position.offset.toNat = front.utf8ByteSize ∧
        e.position.offset.toNat ≤ "a\n(\"é\" b".utf8ByteSize ∧
        e.lineColumn? "a\n(\"é\" b" = some (1 + front.toList.count '\n',
          1 + (front.toList.reverse.takeWhile (· ≠ '\n')).length) := by
  have hsize : "a\n(\"é\" b".utf8ByteSize < UInt32.size := by decide
  have herror : parse "a\n(\"é\" b" ⟨some "main", true⟩ =
      .error (.error ⟨.unexpectedToken "b" [.comma, .closeParen], ⟨8, "main"⟩⟩) :=
    parseError?_eq_some_iff.mp (by decide +kernel)
  exact ⟨hsize, herror, lineColumn?_of_parse _ ⟨some "main", true⟩ hsize _ herror⟩

end SurfaceGrammar

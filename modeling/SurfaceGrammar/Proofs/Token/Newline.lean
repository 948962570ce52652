import SurfaceGrammar.Proofs.Token.Munch
import SurfaceGrammar.Proofs.Token.Separation

/-!
# Sources line by line

A line feed between two sources parts them for the scanner. It ends every token, every error and a
line comment, and behind it the scanner is as at the beginning of a source. Only a block comment
that is not closed may go on behind the line feed.

* `Lexeme.recognise_error_line`: a text that begins with no lexeme, with a line behind it.
* `Scanner.scan_failed_line`: a scan that fails in front of a line feed.
* `Token.onNextLine`: tokens behind a line feed.
* `tokenize_line`: the tokens of two sources with a line feed between them.
-/

namespace SurfaceGrammar

/-! ## Faults in front of a line feed -/

namespace Lexeme

variable {afterValue : Bool} {c quote : Char} {kind : TokenKind} {text : List Char} {f : Fault}

theorem beginsApart_line (more : List Char) : BeginsApart ('\n' :: more) :=
  ⟨'\n', more, rfl, by decide⟩

/-- A literal that is not closed on its line is not closed behind it either. -/
theorem body?_line (hquote : quote ≠ '\n') (h : body? quote text = none) (more : List Char) :
    body? quote (text ++ '\n' :: more) = none := by
  rw [Option.eq_none_iff_forall_ne_some]
  intro body hbody
  obtain ⟨hinside, rest, htext⟩ := body?_eq_some_iff.mp hbody
  -- The line feed is no part of the body, so that the closing quote would stand before it.
  have hlength : body.length < text.length := by
    refine Nat.lt_of_not_le fun hle => ?_
    obtain ⟨own, rfl, htail⟩ := exists_of_append_eq_append text htext.symm hle
    cases own with
    | nil => exact hquote (List.cons.inj htail).1.symm
    | cons d own =>
      obtain ⟨rfl, -⟩ := List.cons.inj htail
      exact hinside.noLineFeed (by simp)
  rw [body?_of_append hbody hlength] at h
  cases h

theorem quoted_error_line (hquote : quote ≠ '\n') (h : quoted kind quote text = .error f)
    (more : List Char) : quoted kind quote (text ++ '\n' :: more) = .error f := by
  have hbody : body? quote (text ++ '\n' :: more) = body? quote text := by
    cases hown : body? quote text with
    | none => exact body?_line hquote hown more
    | some body => exact body?_append hown
  unfold quoted at h ⊢
  rw [hbody]
  exact h

theorem symbol_error_line (h : symbol c text = .error f) (more : List Char) :
    symbol c (text ++ '\n' :: more) = .error f := by
  unfold symbol at h ⊢
  split at h
  · cases h
  · next hnone =>
    have hmore : symbols.find? (fun entry => entry.1.isPrefixOf (c :: (text ++ '\n' :: more))) =
        none := by
      rw [List.find?_eq_none] at hnone ⊢
      intro entry hentry hprefix
      refine hnone entry hentry (List.isPrefixOf_iff_prefix.mpr ?_)
      exact prefix_of_append_of_head (List.isPrefixOf_iff_prefix.mp hprefix)
        fun d hd => ((beginsApart_line more).head d hd).2.2 entry hentry
    rw [hmore]
    exact h

theorem unsigned?_none_line (h : unsigned? text = none) (more : List Char) :
    unsigned? (text ++ '\n' :: more) = none := by
  rw [unsigned?_eq_none_iff] at h ⊢
  rw [takeWhile_append_of_head (beginsApart_line more).isDigit, h]

/-- A block comment that is not closed is the only fault that a text behind the line can change. -/
theorem recognise_error_line (h : recognise afterValue c text = .error f)
    (hkind : f.kind ≠ .unterminatedComment) (more : List Char) :
    ¬(c = '/' ∧ text.head? = some '*') ∧
      recognise afterValue c (text ++ '\n' :: more) = .error f := by
  have hopen : ¬(c = '/' ∧ text.head? = some '*') := by
    rintro ⟨rfl, hstar⟩
    rw [recognise, if_neg (by decide), if_neg (by decide), if_neg (by decide),
      if_pos ⟨rfl, hstar⟩] at h
    cases h
    exact hkind rfl
  have hopen' : ¬(c = '/' ∧ (text ++ '\n' :: more).head? = some '*') := by
    rintro ⟨rfl, hstar⟩
    obtain ⟨rest, htext⟩ := List.head?_eq_some_iff.mp hstar
    obtain ⟨own, rfl⟩ :=
      exists_cons_of_append_of_head htext ((beginsApart_line more).head_ne (by decide))
    exact hopen ⟨rfl, rfl⟩
  refine ⟨hopen, ?_⟩
  unfold recognise at h ⊢
  rw [if_neg hopen] at h
  rw [if_neg hopen']
  split at h
  · cases h
  · next hname =>
    rw [if_neg hname]
    split at h
    · next hstring =>
      rw [if_pos hstring]
      exact quoted_error_line (by decide) h more
    · next hstring =>
      rw [if_neg hstring]
      split at h
      · next hchar =>
        rw [if_pos hchar]
        exact quoted_error_line (by decide) h more
      · next hchar =>
        rw [if_neg hchar]
        split at h
        · next hminus =>
          rw [if_pos hminus]
          split at h
          · split at h <;> cases h
          · next hnone =>
            rw [unsigned?_none_line hnone more]
            exact symbol_error_line h more
        · next hminus =>
          rw [if_neg hminus]
          split at h
          · cases h
          · next hnone =>
            rw [← List.cons_append, unsigned?_none_line hnone more]
            exact symbol_error_line h more

/-- No comment begins in front of a line feed that does not begin without it. -/
theorem take?_line (h : Trivia.take? (c :: text) = none)
    (hopen : ¬(c = '/' ∧ text.head? = some '*')) (more : List Char) :
    Trivia.take? (c :: text ++ '\n' :: more) = none := by
  rw [Option.eq_none_iff_forall_ne_some] at h ⊢
  intro piece hpiece
  have hapart := beginsApart_line more
  obtain ⟨d, rest, hcons, hblank, -⟩ | ⟨rest, hcons, -⟩ | ⟨rest, body, hcons, -, -⟩ :=
    Trivia.take?_eq_some_iff.mp hpiece
  · cases hcons
    exact h _ (Trivia.take?_eq_some_iff.mpr (.inl ⟨c, text, rfl, hblank, rfl⟩))
  · obtain ⟨rfl, htext⟩ := List.cons.inj hcons
    obtain ⟨own, rfl⟩ := exists_cons_of_append_of_head htext (hapart.head_ne (by decide))
    exact h _ rfl
  · obtain ⟨rfl, htext⟩ := List.cons.inj hcons
    obtain ⟨own, rfl⟩ := exists_cons_of_append_of_head htext (hapart.head_ne (by decide))
    exact hopen ⟨rfl, rfl⟩

end Lexeme

namespace Scanner

variable {file : String} {scanner stay : Scanner} {e : Error}

/-- A scan that fails on the line in front of a line feed fails with the same error. -/
theorem scan_failed_line (h : scanner.scan file = .failed e stay)
    (hkind : e.kind ≠ .unterminatedComment) (more : List Char) :
    (scanner.before ('\n' :: more)).scan file = .failed e (stay.before ('\n' :: more)) := by
  obtain ⟨c, text, f, hrest, hf, rfl, rfl⟩ := scan_eq_failed_iff.mp h
  obtain ⟨hopen, hf'⟩ := Lexeme.recognise_error_line hf hkind more
  have hstop : Trivia.take? (scanner.skipTrivia.rest ++ '\n' :: more) = none := by
    rw [hrest]
    exact Lexeme.take?_line (hrest ▸ take?_rest_skipTrivia scanner) hopen more
  have hskip := skipTrivia_before (by rw [hrest]; exact List.cons_ne_nil c text) hstop
  exact scan_eq_failed_iff.mpr ⟨c, text ++ '\n' :: more, f, by rw [hskip, rest_before, hrest]; rfl,
    by rw [hskip]; exact hf', by rw [hskip]; rfl, hskip.symm⟩

end Scanner

/-! ## Two sources -/

/-- Tokens that begin a number of bytes later and on a line of their own. -/
def Token.onNextLine (count : Nat) : List Token → List Token
  | [] => []
  | t :: ts => (t.shift count).onNewLine :: ts.map (shift count)

namespace TokenStream

variable {source file : String} {ts : List Token} {stop : Token} {e : Error}

theorem toList_moved (ts : List Token) (stop : Token) (count : Nat) :
    ∃ us last, moved ⟨ts, .ok stop⟩ count true = ⟨us, .ok last⟩ ∧
      us ++ [last] = Token.onNextLine count (ts ++ [stop]) := by
  cases ts with
  | nil => exact ⟨[], _, rfl, rfl⟩
  | cons t ts => exact ⟨_, _, rfl, by simp [Token.onNextLine]⟩

theorem ending_moved {stream : TokenStream} (h : stream.ending = .error e) (count : Nat)
    (lineBreak : Bool) : (stream.moved count lineBreak).ending = .error (e.shift count) := by
  obtain ⟨ts, ending⟩ := stream
  cases h
  cases lineBreak with
  | false => rfl
  | true => cases ts <;> rfl

/-- An error of the first source, unless it is a block comment that goes on on the next line. -/
theorem ending_line (h : (ofSource source file).ending = .error e)
    (hkind : e.kind ≠ .unterminatedComment) (other : String) :
    (ofSource (source ++ "\n" ++ other) file).ending = .error e := by
  obtain ⟨last, hreads, ⟨t, stay, -, hok⟩ | ⟨error, stay, hscan, herror⟩⟩ :=
    reads_ofScanner file (Scanner.ofSource source)
  · cases hok.symm.trans h
  · obtain rfl : error = e := Except.error.inj (herror.symm.trans h)
    have hbefore : (Scanner.ofSource (source ++ "\n" ++ other)).Reads file
        (ofScanner file (Scanner.ofSource source)).tokens
        (last.before ('\n' :: other.toList)) := by
      rw [Scanner.ofSource_append_append]
      exact hreads.before (Lexeme.beginsApart_line other.toList)
    have hfailed := Scanner.scan_failed_line hscan hkind other.toList
    rw [ofSource, ofScanner_of_reads hbefore, ofScanner_of_failed hfailed]

end TokenStream

/-! ## Offsets of the second source -/

/-- The position is that many bytes later, without going beyond the offsets of 32 bits. -/
def Position.IsLater (count : Nat) (p later : Position) : Prop :=
  later.byte = p.byte + count ∧ later.file = p.file

theorem Position.isLater_shift {count : Nat} {p : Position} (h : p.byte + count < UInt32.size) :
    p.IsLater count (p.shift count) :=
  ⟨toNat_offset_shift h, rfl⟩

theorem Position.byte_ofOffset_le (offset : Nat) (file : String) :
    (ofOffset offset file).byte ≤ offset := by
  rw [byte, toNat_offset_ofOffset]
  exact Nat.mod_le _ _

/-- The tokens of a source lie within its bytes. -/
theorem byte_le_of_tokenize {source file : String} {ts : List Token} {t : Token}
    (h : tokenize source file = .ok ts) (ht : t ∈ ts) :
    t.span.start.byte ≤ source.utf8ByteSize ∧ t.span.stop.byte ≤ source.utf8ByteSize := by
  obtain ⟨us, stop, hstream, rfl⟩ := tokenize_eq_ok_iff.mp h
  obtain ⟨us', stop', heq, -, hspan, hcovers⟩ := (TokenStream.tiled_ofSource hstream).exists_stop
  obtain ⟨rfl, hstop⟩ := List.append_inj' heq rfl
  obtain rfl := (List.cons.inj hstop).1
  rw [Nat.zero_add, Utf8.size_toList] at hspan
  have hbyte {offset : Nat} (hoffset : offset ≤ source.utf8ByteSize) :
      (Position.ofOffset offset file).byte ≤ source.utf8ByteSize :=
    Nat.le_trans (Position.byte_ofOffset_le offset file) hoffset
  rcases List.mem_append.mp ht with ht | ht
  · obtain ⟨front, own, back, hsource, hcover⟩ := hcovers t ht
    have hsizes := congrArg Utf8.size hsource
    rw [Utf8.size_toList, Utf8.size_append, Utf8.size_append] at hsizes
    rw [hcover.span]
    exact ⟨hbyte (by omega), hbyte (by omega)⟩
  · obtain rfl := List.mem_singleton.mp ht
    rw [hspan]
    exact ⟨hbyte (Nat.le_refl _), hbyte (Nat.le_refl _)⟩

/-- An error of a source lies within its bytes. -/
theorem byte_le_of_tokenize_error {source file : String} {e : Error}
    (h : tokenize source file = .error e) : e.position.byte ≤ source.utf8ByteSize := by
  obtain ⟨front, back, hsource, -, hposition⟩ :=
    TokenStream.exists_front_of_ending (tokenize_eq_error_iff.mp h)
  have hsizes := congrArg Utf8.size hsource
  rw [Utf8.size_toList, Utf8.size_append] at hsizes
  rw [hposition]
  exact Nat.le_trans (Position.byte_ofOffset_le _ file) (by omega)

/-! ## The main statement -/

/-- A line feed parts two sources. If both can be read, then the tokens of the first one without its
end are followed by the tokens of the second one, which stand behind the bytes of the first one and
the line feed and the first of which has a line break before it. An error of the second source is
found at its later place. An error of the first source is found as it is, but for a block comment
that is not closed and may go on behind the line feed. The later places are exact if the bytes of
both sources can be counted with 32 bits. -/
theorem tokenize_line (source other file : String) :
    (∀ ts us, tokenize source file = .ok ts → tokenize other file = .ok us →
      ∃ before stop, ts = before ++ [stop] ∧ stop.kind = .eof ∧
        tokenize (source ++ "\n" ++ other) file =
          .ok (before ++ Token.onNextLine (source.utf8ByteSize + 1) us)) ∧
    (∀ ts e, tokenize source file = .ok ts → tokenize other file = .error e →
      tokenize (source ++ "\n" ++ other) file = .error (e.shift (source.utf8ByteSize + 1))) ∧
    (∀ e, tokenize source file = .error e → e.kind ≠ .unterminatedComment →
      tokenize (source ++ "\n" ++ other) file = .error e) ∧
    ((source ++ "\n" ++ other).utf8ByteSize < UInt32.size →
      (∀ us, tokenize other file = .ok us → ∀ u ∈ us,
        u.span.start.IsLater (source.utf8ByteSize + 1)
            (u.shift (source.utf8ByteSize + 1)).span.start ∧
          u.span.stop.IsLater (source.utf8ByteSize + 1)
            (u.shift (source.utf8ByteSize + 1)).span.stop) ∧
      ∀ e, tokenize other file = .error e →
        e.position.IsLater (source.utf8ByteSize + 1)
          (e.shift (source.utf8ByteSize + 1)).position) := by
  refine ⟨fun ts us hts hus => ?_, fun ts e hts he => ?_, fun e he hkind => ?_, fun hsize => ?_⟩
  · obtain ⟨before, stop, hsource, rfl⟩ := tokenize_eq_ok_iff.mp hts
    obtain ⟨us, stop', hother, rfl⟩ := tokenize_eq_ok_iff.mp hus
    have hkind : stop.kind = .eof :=
      (TokenStream.proper_ofScanner file (Scanner.ofSource source)).ending stop
        (congrArg TokenStream.ending hsource)
    obtain ⟨vs, last, hmoved, hvs⟩ :=
      TokenStream.toList_moved us stop' (source.utf8ByteSize + 1)
    have hline := TokenStream.ofSource_line hsource other
    rw [hother, hmoved] at hline
    exact ⟨before, stop, rfl, hkind, tokenize_eq_ok_iff.mpr ⟨_, last, hline, by rw [← hvs]; simp⟩⟩
  · obtain ⟨before, stop, hsource, rfl⟩ := tokenize_eq_ok_iff.mp hts
    rw [tokenize_eq_error_iff] at he ⊢
    rw [TokenStream.ofSource_line hsource other]
    exact TokenStream.ending_moved he (source.utf8ByteSize + 1) true
  · rw [tokenize_eq_error_iff] at he ⊢
    exact TokenStream.ending_line he hkind other
  · have hsizes : (source ++ "\n" ++ other).utf8ByteSize =
        source.utf8ByteSize + 1 + other.utf8ByteSize := by
      rw [String.utf8ByteSize_append, String.utf8ByteSize_append]
      rfl
    refine ⟨fun us hus u hu => ?_, fun e he => ?_⟩
    · obtain ⟨hstart, hstop⟩ := byte_le_of_tokenize hus hu
      exact ⟨Position.isLater_shift (by omega), Position.isLater_shift (by omega)⟩
    · have hposition := byte_le_of_tokenize_error he
      exact Position.isLater_shift (by omega)

/-- A comment in front of the line feed, a minus behind it, and two literals that are not closed. -/
theorem tokenize_line_comment :
    tokenize "a//\n-1" "shell" = .ok
      [⟨.identifier, "a", ⟨⟨0, "shell"⟩, ⟨1, "shell"⟩⟩, false⟩,
        ⟨.number, "-1", ⟨⟨4, "shell"⟩, ⟨6, "shell"⟩⟩, true⟩,
        ⟨.eof, "EOF", ⟨⟨6, "shell"⟩, ⟨6, "shell"⟩⟩, false⟩] ∧
    tokenize "a//\n '" "shell" = .error ⟨.unterminatedLiteral '\'', ⟨5, "shell"⟩⟩ ∧
    tokenize "\"\\\n\"" "shell" = .error ⟨.unterminatedLiteral '"', ⟨0, "shell"⟩⟩ ∧
    (Position.mk 1 "shell").IsLater 4 ⟨5, "shell"⟩ := by
  have hsource : tokenize "a//" "shell" = .ok
      [⟨.identifier, "a", ⟨⟨0, "shell"⟩, ⟨1, "shell"⟩⟩, false⟩,
        ⟨.eof, "EOF", ⟨⟨3, "shell"⟩, ⟨3, "shell"⟩⟩, false⟩] := by decide +kernel
  have hopen : tokenize " '" "shell" = .error ⟨.unterminatedLiteral '\'', ⟨1, "shell"⟩⟩ := by
    decide +kernel
  have hclosed : tokenize "\"\\" "shell" = .error ⟨.unterminatedLiteral '"', ⟨0, "shell"⟩⟩ := by
    decide +kernel
  obtain ⟨htokens, -, -, -⟩ := tokenize_line "a//" "-1" "shell"
  obtain ⟨-, hlater, -, hexact⟩ := tokenize_line "a//" " '" "shell"
  obtain ⟨-, -, herror, -⟩ := tokenize_line "\"\\" "\"" "shell"
  obtain ⟨before, stop, hbefore, -, hline⟩ := htokens _
    [⟨.number, "-1", ⟨⟨0, "shell"⟩, ⟨2, "shell"⟩⟩, false⟩,
      ⟨.eof, "EOF", ⟨⟨2, "shell"⟩, ⟨2, "shell"⟩⟩, false⟩] hsource (by decide +kernel)
  obtain rfl := (congrArg List.dropLast hbefore).trans List.dropLast_concat
  exact ⟨hline, hlater _ _ hsource hopen, herror _ hclosed (by decide),
    (hexact (by decide)).2 _ hopen⟩

end SurfaceGrammar

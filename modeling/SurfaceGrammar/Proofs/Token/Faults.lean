import SurfaceGrammar.Proofs.Token.Places

/-!
# Where a source cannot be read

A source that cannot be cut into tokens has a first piece that is none. What is wrong with that
piece is a fault of the lexer, and the place of the fault lies in the source and behind the
beginnings of all tokens before it.

* `Escape.exists_of_decodeFrom`, `Lexeme.fault_of_recognise`: a fault lies between two characters
  of the text at which it is found.
* `Scanner.place_of_scan_failed`: where a scan fails.
* `TokenStream.fault_ofSource`: the fault that stops the tokens of a source.
-/

namespace SurfaceGrammar

theorem error_of_map {ε α β : Type} {f : α → β} {x : Except ε α} {e : ε}
    (h : f <$> x = .error e) : x = .error e := by
  cases x with
  | error e' =>
    cases h
    rfl
  | ok a => cases h

namespace Escape

theorem utf8Size_of_isHexDigit {c : Char} (h : isHexDigit c = true) : c.utf8Size = 1 := by
  simp only [isHexDigit, Bool.or_eq_true, Bool.and_eq_true, decide_eq_true_eq] at h
  have hle : c.toNat ≤ 127 := by
    obtain (hdigit | ⟨-, hhigh⟩) | ⟨-, hhigh⟩ := h
    · have := (Char.isDigit_iff_toNat.mp hdigit).2
      exact Nat.le_trans this (by decide)
    · exact Nat.le_trans hhigh (by decide)
    · exact Nat.le_trans hhigh (by decide)
  exact Char.utf8Size_eq_one_iff.mpr (UInt32.le_iff_toNat_le.mpr hle)

theorem utf8Size_of_simple? {e value : Char} (h : simple? e = some value) : e.utf8Size = 1 := by
  unfold simple? at h
  split at h <;> first | rfl | cases h

/-- What stands behind a piece of a body stands behind its bytes. -/
theorem exists_behind {index : Nat} {rest : List Char} {invalid : Invalid} (piece : List Char)
    (h : ∃ front back, rest = front ++ back ∧
      invalid.index = index + Utf8.size piece + Utf8.size front) :
    ∃ front back, piece ++ rest = front ++ back ∧ invalid.index = index + Utf8.size front := by
  obtain ⟨front, back, rfl, hindex⟩ := h
  refine ⟨piece ++ front, back, (List.append_assoc ..).symm, ?_⟩
  rw [hindex, Utf8.size_append, Nat.add_assoc]

/-- An escape that is none begins between two characters of the body. The cases are those of the
definition. -/
theorem exists_of_decodeFrom {index : Nat} {body : List Char} {invalid : Invalid}
    (h : decodeFrom index body = .error invalid) :
    ∃ front back, body = front ++ back ∧ invalid.index = index + Utf8.size front := by
  fun_induction decodeFrom index body with
  | case1 => cases h
  | case2 index c body _ ih => exact exists_behind [c] (ih (error_of_map h))
  | case6 index c hc high hhigh low body hlow ih =>
    obtain rfl : c = '\\' := Decidable.not_not.mp hc
    have hsize : Utf8.size ['\\', 'x', high, low] = 4 := by
      simp only [Utf8.size_cons, utf8Size_of_isHexDigit hhigh, utf8Size_of_isHexDigit hlow]
      rfl
    exact exists_behind ['\\', 'x', high, low] (hsize ▸ ih (error_of_map h))
  | case9 index c hc e body hx value hvalue ih =>
    obtain rfl : c = '\\' := Decidable.not_not.mp hc
    have hsize : Utf8.size ['\\', e] = 2 := by
      simp only [Utf8.size_cons, utf8Size_of_simple? hvalue]
      rfl
    exact exists_behind ['\\', e] (hsize ▸ ih (error_of_map h))
  | _ =>
    cases h
    exact ⟨[], _, rfl, rfl⟩

end Escape

namespace Lexeme

variable {afterValue : Bool} {c quote : Char} {kind : TokenKind} {text : List Char} {f : Fault}

/-- A fault lies before a character of the text at which it is found, and is one of the lexer. -/
def Fault.IsWithin (f : Fault) (text : List Char) : Prop :=
  f.kind.isLexical = true ∧
    ∃ front back, text = front ++ back ∧ back ≠ [] ∧ f.index = Utf8.size front

/-- A fault of the lexer at the beginning of the text. -/
theorem Fault.IsWithin.start {kind : ErrorKind} (h : kind.isLexical = true) :
    Fault.IsWithin ⟨kind, 0⟩ (c :: text) :=
  ⟨h, [], c :: text, rfl, List.cons_ne_nil c text, rfl⟩

/-- An escape that is none begins behind the opening quote and before the closing one. -/
theorem fault_of_quoted (hquote : quote.utf8Size = 1) (h : quoted kind quote text = .error f) :
    f.IsWithin (quote :: text) := by
  unfold quoted at h
  split at h
  · cases h
    exact .start rfl
  · next body hbody =>
    obtain ⟨-, rest, rfl⟩ := body?_eq_some_iff.mp hbody
    split at h
    · next invalid hinvalid =>
      cases h
      obtain ⟨front, back, rfl, hindex⟩ := Escape.exists_of_decodeFrom hinvalid
      refine ⟨rfl, quote :: front, back ++ quote :: rest, by simp, by simp, ?_⟩
      rw [Utf8.size_cons, hquote, hindex, Nat.zero_add]
    · dsimp only at h
      split at h
      · cases h
        exact .start rfl
      · cases h

theorem fault_of_symbol (h : symbol c text = .error f) : f.IsWithin (c :: text) := by
  unfold symbol at h
  split at h
  · cases h
  · cases h
    exact .start rfl

/-- The cases are those of the definition. -/
theorem fault_of_recognise (h : recognise afterValue c text = .error f) :
    f.IsWithin (c :: text) := by
  unfold recognise at h
  split at h
  · cases h
  · split at h
    · next hquote =>
      subst hquote
      exact fault_of_quoted rfl h
    · split at h
      · next hquote =>
        subst hquote
        exact fault_of_quoted rfl h
      · split at h
        · cases h
          exact .start rfl
        · split at h
          · split at h
            · split at h <;> cases h
            · exact fault_of_symbol h
          · split at h
            · cases h
            · exact fault_of_symbol h

end Lexeme

namespace Scanner

variable {file : String} {scanner stay last : Scanner} {t : Token} {ts : List Token} {e : Error}

/-- A scan fails before a character that the scanner has not passed. -/
theorem place_of_scan_failed (h : scanner.scan file = .failed e stay) :
    e.kind.isLexical = true ∧ ∃ front back, stay.rest = front ++ back ∧ back ≠ [] ∧
      e.position = .ofOffset (stay.offset + Utf8.size front) file := by
  obtain ⟨c, text, f, hrest, hf, rfl, rfl⟩ := scan_eq_failed_iff.mp h
  obtain ⟨hlexical, front, back, htext, hback, hindex⟩ := Lexeme.fault_of_recognise hf
  exact ⟨hlexical, front, back, hrest.trans htext, hback, by rw [hindex]⟩

/-- Before an error a scanner stays behind the white space and the comments. -/
theorem stay_of_scan_failed (h : scanner.scan file = .failed e stay) :
    stay = scanner.skipTrivia := by
  obtain ⟨-, -, -, -, -, -, hstay⟩ := scan_eq_failed_iff.mp h
  exact hstay

/-- The tokens that a scanner reads begin before the place where it stops. -/
theorem Reads.start_lt (h : scanner.Reads file ts last) (hsize : scanner.size < UInt32.size)
    (ht : t ∈ ts) : t.span.start.byte < last.offset := by
  induction h with
  | refl => cases ht
  | @step scanner next last u ts head tail ih =>
    obtain ⟨hnext, start, hspan, -, hlt⟩ := place_of_scan head
    obtain rfl | ht := List.mem_cons.mp ht
    · obtain ⟨-, hoffset, -⟩ := tail.places (hnext ▸ hsize)
      have hbound := next.offset_le_size
      have hstart : t.span.start.byte = start := by
        rw [hspan]
        exact Position.byte_ofOffset file (by omega)
      omega
    · exact ih (hnext ▸ hsize) ht

end Scanner

theorem TokenStream.isLexical_ofSource {source file : String} {e : Error}
    (he : (ofSource source file).ending = .error e) : e.kind.isLexical = true := by
  obtain ⟨last, -, hending⟩ := reads_ofScanner file (Scanner.ofSource source)
  obtain ⟨t, stay, -, ht⟩ | ⟨error, stay, hscan, herror⟩ := hending
  · rw [ofSource, ht] at he
    cases he
  · rw [ofSource, herror] at he
    cases he
    exact (Scanner.place_of_scan_failed hscan).1

/-- What stops the tokens of a source is a fault of the lexer, behind the beginnings of all
tokens. -/
theorem TokenStream.fault_ofSource {source file : String} {e : Error}
    (hsize : source.utf8ByteSize < UInt32.size) (he : (ofSource source file).ending = .error e) :
    e.kind.isLexical = true ∧
      ∀ t ∈ (ofSource source file).tokens, t.span.start.offset < e.position.offset := by
  obtain ⟨last, hreads, hending⟩ := reads_ofScanner file (Scanner.ofSource source)
  rw [← Scanner.size_ofSource] at hsize
  obtain ⟨t, stay, -, ht⟩ | ⟨error, stay, hscan, herror⟩ := hending
  · rw [ofSource, ht] at he
    cases he
  · rw [ofSource, herror] at he
    cases he
    obtain ⟨hlexical, front, back, hrest, -, hposition⟩ := Scanner.place_of_scan_failed hscan
    obtain rfl := Scanner.stay_of_scan_failed hscan
    obtain ⟨hskip, hle⟩ := last.place_skipTrivia
    obtain ⟨hlast, -⟩ := hreads.places hsize
    refine ⟨hlexical, fun t ht => ?_⟩
    have hbefore := hreads.start_lt hsize ht
    rw [Scanner.size, hrest, Utf8.size_append] at hskip
    have hfault : e.position.byte = last.skipTrivia.offset + Utf8.size front := by
      rw [hposition]
      exact Position.byte_ofOffset file (by omega)
    change t.span.start.offset.toNat < e.position.offset.toNat
    rw [Position.byte] at hbefore hfault
    omega

end SurfaceGrammar

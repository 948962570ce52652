import SurfaceGrammar.Proofs.Grammar.Composition
import SurfaceGrammar.Proofs.Grammar.Failures
import SurfaceGrammar.Proofs.Parse.Horizon

/-!
# How far a parse looks ahead

Productions see no further than the token after the current one, as their steps do, so two parses
with the same tokens up to a horizon go the same way as long as the first one has not passed the
last of these tokens.

* `TokenStream.readable`: the tokens that can be read.
* `StopsAt`: at which token a parse stops.
* `parse_of_same_front`: the error at a token is settled by the tokens up to the next one.
-/

namespace SurfaceGrammar

/-! ## Common tokens -/

namespace TokenStream

variable {stream other : TokenStream} {t next : Token} {index : Nat}

/-- The tokens that can be read, with the one for the end if nothing stops the scanner. -/
def readable (stream : TokenStream) : List Token :=
  stream.tokens ++ stream.ending.toOption.toList

/-- What can be read first is what reading gives. -/
theorem exists_read_of_readable {us : List Token} (h : stream.readable = next :: us) :
    ∃ rest, stream.read = .ok (next, rest) := by
  obtain ⟨_ | ⟨t, ts⟩, ending⟩ := stream
  · cases ending with
    | error e => cases h
    | ok stop =>
      cases h
      exact ⟨_, rfl⟩
  · cases h
    exact ⟨_, rfl⟩

/-- A stream is cut behind tokens behind which another token can be read. -/
theorem exists_of_readable {ts us : List Token} (h : stream.readable = ts ++ next :: us) :
    ∃ after, stream.tokens = ts ++ after ∧
      ∃ rest, read ⟨after, stream.ending⟩ = .ok (next, rest) := by
  have hending : stream.ending.toOption.toList.length ≤ 1 := by
    cases stream.ending <;> simp [Except.toOption]
  obtain ⟨more, hts, hmore⟩ | ⟨after, htokens, hafter⟩ := List.append_eq_append_iff.mp h
  · obtain rfl : more = [] := by
      rw [hmore, List.length_append, List.length_cons] at hending
      exact List.eq_nil_of_length_eq_zero (by omega)
    exact ⟨[], by simpa using hts.symm, exists_read_of_readable hmore⟩
  · exact ⟨after, htokens, exists_read_of_readable hafter.symm⟩

/-- Two streams from which the same tokens can be read, up to the one behind an index. -/
theorem exists_of_same_front (hindex : index < stream.tokens.length)
    (hreadable : index + 1 < stream.readable.length)
    (hsame : other.readable.take (index + 2) = stream.readable.take (index + 2)) :
    ∃ ts t after after' next, ts.length = index ∧ stream.tokens = ts ++ t :: after ∧
      other.tokens = ts ++ t :: after' ∧
      (∃ rest, read ⟨after, stream.ending⟩ = .ok (next, rest)) ∧
      ∃ rest, read ⟨after', other.ending⟩ = .ok (next, rest) := by
  obtain ⟨ts, t, after, htokens, rfl⟩ : ∃ ts t after, stream.tokens = ts ++ t :: after ∧
      ts.length = index :=
    ⟨stream.tokens.take index, stream.tokens[index], stream.tokens.drop (index + 1), by simp,
      List.length_take_of_le (Nat.le_of_lt hindex)⟩
  obtain ⟨next, us, hafter⟩ : ∃ next us, readable ⟨after, stream.ending⟩ = next :: us := by
    refine List.exists_cons_of_length_pos ?_
    simp only [readable, htokens, List.length_append, List.length_cons] at hreadable ⊢
    omega
  have hstream : stream.readable = (ts ++ [t]) ++ next :: us := by
    rw [← hafter, readable, htokens, readable]
    simp
  have hother : other.readable = (ts ++ [t]) ++ next :: other.readable.drop (ts.length + 2) := by
    conv_lhs => rw [← List.take_append_drop (ts.length + 2) other.readable, hsame, hstream]
    simp [List.take_append, List.take_of_length_le]
  obtain ⟨after', htokens', hread'⟩ := exists_of_readable hother
  exact ⟨ts, t, after, after', next, rfl, htokens, by simpa using htokens',
    exists_read_of_readable hafter, hread'⟩

end TokenStream

/-! ## Errors at a token -/

/-- The parse of a source stops with an error while it stands at the token with the index: all
tokens before it were passed, and the token was not. -/
def StopsAt (source : String) (settings : Settings) (index : Nat) (e : Error) : Prop :=
  ∃ s s', ParseState.start source settings = .ok s ∧
    Parse.bounded .standard settings (Parse.wholeSource settings.file) s = .error (.error e) s' ∧
    index < (TokenStream.ofSource source settings.file).tokens.length ∧
    s'.ahead = (TokenStream.ofSource source settings.file).tokens.drop index

section StopsAt

variable {source other : String} {settings : Settings} {index : Nat} {e : Error}

theorem StopsAt.parse_eq (h : StopsAt source settings index e) :
    parse source settings = .error (.error e) := by
  obtain ⟨s, s', hs, hrun, -⟩ := h
  rw [parse_of_start hs]
  unfold Parse.bounded at hrun
  rw [hrun]

/-- An error about a token stands at one, and the parse stops there. -/
theorem exists_stopsAt (h : parse source settings = .error (.error e))
    (hkind : (∃ token expected, e.kind = .unexpectedToken token expected) ∨
      ∃ token, e.kind = .numberParseError token) :
    ∃ index t, (TokenStream.ofSource source settings.file).tokens[index]? = some t ∧
      e.position = t.span.start ∧ StopsAt source settings index e := by
  have hlexical : e.kind.isLexical = false := by
    obtain ⟨token, expected, hkind⟩ | ⟨token, hkind⟩ := hkind <;> rw [hkind] <;> rfl
  obtain hending | ⟨s, s', hs, hrun, hleads, hraises⟩ := raises_of_parse h
  · rw [TokenStream.isLexical_ofSource hending] at hlexical
    cases hlexical
  obtain ⟨-, -, hahead, hending⟩ := ParseState.of_start hs
  have hcurrent : s'.current.kind ≠ .eof ∧ e.position = s'.current.span.start := by
    cases hraises with
    | unreadable hstop =>
      rw [hleads.ending, hending] at hstop
      rw [TokenStream.isLexical_ofSource hstop] at hlexical
      cases hlexical
    | unexpected expected =>
      by_cases heof : s'.current.kind = .eof
      · rw [ParseState.unexpected, if_pos heof] at hkind
        simp at hkind
      · rw [ParseState.unexpected, if_neg heof]
        exact ⟨heof, rfl⟩
    | number hnumber => exact ⟨by rw [hnumber]; decide, rfl⟩
    | lacking => simp at hkind
  obtain ⟨passed, hpassed⟩ := hleads.suffix
  rw [hahead, ParseState.ahead_of_ne_eof hcurrent.1] at hpassed
  refine ⟨passed.length, s'.current, by simp [← hpassed], hcurrent.2, s, s', hs, hrun,
    by simp [← hpassed], ?_⟩
  rw [ParseState.ahead_of_ne_eof hcurrent.1, ← hpassed, List.drop_left]

/-- Parses of sources with the same tokens up to a horizon start alike. -/
theorem ParseState.shares_of_start {H : Horizon} {t : Token} {ts : List Token} {s : ParseState}
    (h : ParseState.start source settings = .ok s)
    (hsource : TokenStream.ofSource source settings.file =
      ⟨t :: ts ++ H.first.tokens, H.first.ending⟩)
    (hother : TokenStream.ofSource other settings.file =
      ⟨t :: ts ++ H.second.tokens, H.second.ending⟩) :
    ∃ s', ParseState.start other settings = .ok s' ∧ s.Shares H s' := by
  unfold ParseState.start at h ⊢
  rw [hsource] at h
  rw [hother]
  cases h
  exact ⟨_, rfl, ⟨ts, rfl, rfl⟩, rfl⟩

/-- Where the same tokens can be read up to the next one, the parse stops with the same error. -/
theorem StopsAt.of_same_front (h : StopsAt source settings index e)
    (hreadable : index + 1 < (TokenStream.ofSource source settings.file).readable.length)
    (hsame : (TokenStream.ofSource other settings.file).readable.take (index + 2) =
      (TokenStream.ofSource source settings.file).readable.take (index + 2)) :
    StopsAt other settings index e := by
  obtain ⟨s, s', hs, hrun, hindex, hahead⟩ := h
  obtain ⟨ts, t, after, after', next, rfl, htokens, htokens', hread, hread'⟩ :=
    TokenStream.exists_of_same_front hindex hreadable hsame
  let H : Horizon :=
    { first := ⟨after, (TokenStream.ofSource source settings.file).ending⟩
      second := ⟨after', (TokenStream.ofSource other settings.file).ending⟩
      next, read_first := hread, read_second := hread'
      ending := (TokenStream.proper_ofScanner settings.file (Scanner.ofSource source)).ending }
  obtain ⟨u, us, hus⟩ : ∃ u us, ts ++ [t] = u :: us :=
    List.exists_cons_of_ne_nil (by simp)
  have hsource : (TokenStream.ofSource source settings.file).tokens = u :: us ++ after := by
    rw [← hus, htokens]
    simp
  have hother : (TokenStream.ofSource other settings.file).tokens = u :: us ++ after' := by
    rw [← hus, htokens']
    simp
  obtain ⟨s₂, hs₂, hshares⟩ : ∃ s₂, ParseState.start other settings = .ok s₂ ∧ s.Shares H s₂ :=
    ParseState.shares_of_start hs (by rw [← hsource]) (by rw [← hother])
  -- both parses with as many levels as either of them can need
  have hlevels : s.ahead.length < s.levels + s₂.levels :=
    Nat.lt_of_lt_of_le s.length_ahead_lt_levels (Nat.le_add_right _ _)
  have hlevels₂ : s₂.ahead.length < s.levels + s₂.levels :=
    Nat.lt_of_lt_of_le s₂.length_ahead_lt_levels (Nat.le_add_left _ _)
  have hrun₁ := wholeSource_of_levels settings.file settings.elseRequired
    (ParseState.of_start hs).1 hlevels
  have hrun₂ := wholeSource_of_levels settings.file settings.elseRequired
    (ParseState.of_start hs₂).1 hlevels₂
  have hnear : Obeys (Nearsighted H) (Parse.wholeSource settings.file
      (descent .standard settings.elseRequired (s.levels + s₂.levels))) := inferInstance
  have hsight := hnear.holds.sight s s₂ hshares
  rw [hrun₁, hrun₂] at hsight
  unfold Parse.bounded at hrun
  rw [hrun] at hsight
  -- the first parse stands at the last of the common tokens
  rw [htokens, List.drop_left] at hahead
  have heof : s'.current.kind ≠ .eof := by
    intro heof
    rw [ParseState.ahead_eq_nil.mpr heof] at hahead
    cases hahead
  rw [ParseState.ahead_of_ne_eof heof, List.cons.injEq] at hahead
  obtain ⟨hcurrent, hupcoming⟩ := hahead
  generalize hrun' : Parse.wholeSource settings.file _ s₂ = r at hsight
  cases hsight with
  | error shares =>
    refine ⟨s₂, _, hs₂, hrun', by simp [htokens'], ?_⟩
    obtain ⟨more, hmore, hmore'⟩ := shares.upcoming
    obtain rfl : more = [] := by
      rw [hmore] at hupcoming
      exact List.append_left_eq_self.mp hupcoming
    rw [ParseState.ahead_of_ne_eof (by rwa [shares.current]), shares.current, hcurrent, hmore',
      htokens', List.drop_left]
    rfl
  | passed hpassed =>
    obtain hlt | ⟨hstop, -⟩ := hpassed
    · rw [hupcoming] at hlt
      exact absurd hlt (Nat.lt_irrefl _)
    · exact absurd hstop heof

end StopsAt

/-- No two tokens of a source whose bytes can be counted begin at the same place. -/
theorem TokenStream.index_unique {source file : String} {i j : Nat} {t u : Token}
    (hsize : source.utf8ByteSize < UInt32.size) (ht : (ofSource source file).tokens[i]? = some t)
    (hu : (ofSource source file).tokens[j]? = some u) (hstart : t.span.start = u.span.start) :
    i = j := by
  have hlaid := laidOut_ofSource file hsize
  have hbefore {i j : Nat} {t u : Token} (ht : (ofSource source file).tokens[i]? = some t)
      (hu : (ofSource source file).tokens[j]? = some u) (hlt : i < j) :
      t.span.start.byte < u.span.start.byte := by
    obtain ⟨hi, rfl⟩ := List.getElem?_eq_some_iff.mp ht
    obtain ⟨hj, rfl⟩ := List.getElem?_eq_some_iff.mp hu
    exact Nat.lt_of_lt_of_le (hlaid.tokens _ (List.getElem_mem hi)).start_lt_stop
      (List.pairwise_iff_getElem.mp hlaid.ordered i j hi hj hlt)
  obtain hlt | heq | hgt := Nat.lt_trichotomy i j
  · exact absurd (hbefore ht hu hlt) (by rw [hstart]; exact Nat.lt_irrefl _)
  · exact heq
  · exact absurd (hbefore hu ht hgt) (by rw [hstart]; exact Nat.lt_irrefl _)

/-- A parse decides on a token by what it has read up to the one behind it. If it fails at a token
of its source and the next token, or the one for the end, can be read, it fails with the same error
on every source that begins with the same tokens, whatever follows. -/
theorem parse_of_same_front {source : String} {settings : Settings} {e : Error}
    (h : parse source settings = .error (.error e))
    (hkind : (∃ token expected, e.kind = .unexpectedToken token expected) ∨
      ∃ token, e.kind = .numberParseError token) :
    ∃ index t, (TokenStream.ofSource source settings.file).tokens[index]? = some t ∧
      e.position = t.span.start ∧ StopsAt source settings index e ∧
      (source.utf8ByteSize < UInt32.size → ∀ i u,
        (TokenStream.ofSource source settings.file).tokens[i]? = some u →
          u.span.start = e.position → i = index) ∧
      (index + 1 < (TokenStream.ofSource source settings.file).readable.length → ∀ other,
        (TokenStream.ofSource other settings.file).readable.take (index + 2) =
            (TokenStream.ofSource source settings.file).readable.take (index + 2) →
          parse other settings = .error (.error e)) := by
  obtain ⟨index, t, ht, hposition, hstops⟩ := exists_stopsAt h hkind
  refine ⟨index, t, ht, hposition, hstops, fun hsize i u hu hstart => ?_,
    fun hreadable other hsame => (hstops.of_same_front hreadable hsame).parse_eq⟩
  exact TokenStream.index_unique hsize hu ht (hstart.trans hposition)

/-- A name that does not belong in a list is reported whether a string without an end or brackets
that do not fit come after the next name. -/
theorem parse_of_same_front_names :
    parse "(a b c \"x" {} =
      .error (.error ⟨.unexpectedToken "b" [.comma, .closeParen], ⟨3, "shell"⟩⟩) ∧
    parse "(a b c ] = \x7b" {} =
      .error (.error ⟨.unexpectedToken "b" [.comma, .closeParen], ⟨3, "shell"⟩⟩) := by
  have herror : parse "(a b c \"x" {} =
      .error (.error ⟨.unexpectedToken "b" [.comma, .closeParen], ⟨3, "shell"⟩⟩) :=
    parseError?_eq_some_iff.mp (by decide +kernel)
  obtain ⟨index, t, ht, hposition, -, hunique, hfront⟩ :=
    parse_of_same_front herror (.inl ⟨_, _, rfl⟩)
  obtain rfl : 2 = index := hunique (by decide) 2 ⟨.identifier, "b", ⟨⟨3, "shell"⟩, ⟨4, "shell"⟩⟩,
    false⟩ (by decide +kernel) rfl
  exact ⟨herror, hfront (by decide +kernel) _ (by decide +kernel)⟩

end SurfaceGrammar

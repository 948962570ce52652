import SurfaceGrammar.Proofs.Grammar.Composition
import SurfaceGrammar.Proofs.Grammar.Foresight

/-!
# The records of a parse

A parse reads the tokens of its source in a single pass: it records each token when it is read for
the first time, in order, and no token twice, however often it looks ahead. So its records of tokens
are the first of those that reading all tokens of the source leaves. It reads no more than one token
behind the one at which it stops, and a parse that succeeds has read all of them. The record of the
end stands behind all others in a parse that succeeds, and in no other parse.

* `tokenizeRecorded`: the tokens of a source, read one after another, with the records of it.
* `ParseState.unread`: the tokens that were not read so far.
* `ParseState.Logs`, `ParseState.stable_logs`: the records of a state and what every step keeps of
  them.
* `records_of_parse`: the records of a whole parse.
-/

namespace SurfaceGrammar

/-! ## The records of the tokens of a source -/

/-- Whether a token was read. -/
def Event.isLexed : Event → Bool
  | lexed _ => true
  | _ => false

/-- Whether a whole source was read. -/
def Event.isFinished : Event → Bool
  | finished _ _ => true
  | _ => false

/-- Takes the tokens that a scanner finds one after another, up to the one for the end or an error,
and records each of them. The token for the end is not recorded. -/
def Scanner.readAll (file : String) (scanner : Scanner) (tokens : List Token)
    (events : Array Event) : Except Error (List Token) × Array Event :=
  match _found : scanner.scan file with
  | .token token next => readAll file next (tokens ++ [token]) (events.push (.lexed token))
  | .ended token _ => (.ok (tokens ++ [token]), events)
  | .failed error _ => (.error error, events)
termination_by scanner.rest.length
decreasing_by exact Scanner.length_lt_of_scan _found

/-- The tokens of a source, with the records of reading them. -/
def tokenizeRecorded (source file : String) : Except Error (List Token) × Array Event :=
  (Scanner.ofSource source).readAll file [] #[]

/-- The tokens that a scanner finds are taken and recorded in order. -/
theorem Scanner.readAll_eq (file : String) (scanner : Scanner) (tokens : List Token)
    (events : Array Event) : scanner.readAll file tokens events =
      ((TokenStream.ofScanner file scanner).ending.map fun stop =>
          tokens ++ ((TokenStream.ofScanner file scanner).tokens ++ [stop]),
        events ++ ((TokenStream.ofScanner file scanner).tokens.map Event.lexed).toArray) := by
  fun_induction readAll file scanner tokens events with
  | case1 scanner tokens events t next hscan ih =>
    have hevents (more : List Event) :
        events.push (.lexed t) ++ more.toArray = events ++ (.lexed t :: more).toArray :=
      Array.ext' (by simp)
    rw [ih, TokenStream.ofScanner_of_token hscan, hevents]
    simp
  | case2 scanner tokens events t stay hscan =>
    rw [TokenStream.ofScanner_of_ended hscan]
    simp [Except.map]
  | case3 scanner tokens events e stay hscan =>
    rw [TokenStream.ofScanner_of_failed hscan]
    simp [Except.map]

/-- The records of reading all tokens of a source are those of its tokens, in order. -/
theorem tokenizeRecorded_eq (source file : String) : tokenizeRecorded source file =
    (tokenize source file,
      ((TokenStream.ofSource source file).tokens.map Event.lexed).toArray) := by
  rw [tokenizeRecorded, Scanner.readAll_eq]
  simp [tokenize, TokenStream.toList, TokenStream.ofSource]

/-! ## The records of a state -/

namespace ParseState

variable {stream : TokenStream} {s s' : ParseState}

/-- The tokens that were not read so far. The token after the current one was read if it was looked
at. -/
def unread (s : ParseState) : List Token :=
  if s.peeked then s.upcoming.tokens.tail else s.upcoming.tokens

/-- Every token of a stream was recorded exactly once and in order, up to those that were not read
so far, and the end of the parse was not recorded. -/
structure Logs (stream : TokenStream) (s : ParseState) : Prop where
  proper : s.upcoming.Proper
  tokens : s.events.toList.filter Event.isLexed ++ s.unread.map Event.lexed =
    stream.tokens.map Event.lexed
  unfinished : ∀ event ∈ s.events, event.isFinished = false

/-- Reading the next token takes it from the stream and records it. -/
theorem lexed_of_read {t : Token} {rest : TokenStream} (h : stream.Proper)
    (hread : stream.read = .ok (t, rest)) : rest.Proper ∧ rest.tokens = stream.tokens.tail ∧
      (lexed t).toList ++ rest.tokens.map Event.lexed = stream.tokens.map Event.lexed := by
  obtain ⟨ts, hts, rfl⟩ | ⟨hts, hstop, rfl⟩ := TokenStream.ok_of_read hread
  · have htokens := h.tokens
    rw [hts] at htokens
    refine ⟨⟨fun u hu => htokens u (List.mem_cons_of_mem t hu), h.ending⟩, by rw [hts]; rfl, ?_⟩
    rw [lexed, if_neg (htokens t List.mem_cons_self).ne_eof, hts]
    rfl
  · refine ⟨h, by rw [hts]; rfl, ?_⟩
    rw [lexed, if_pos (h.ending t hstop)]
    rfl

/-- The record of reading a token is no other record. -/
theorem event_lexed {t : Token} {event : Event} (h : event ∈ lexed t) :
    event.isLexed = true ∧ event.isFinished = false := by
  unfold lexed at h
  split at h
  · simp at h
  · obtain rfl := by simpa using h
    exact ⟨rfl, rfl⟩

/-- Reading a token that was not looked at before records it. -/
theorem Logs.read {t : Token} {rest : TokenStream} (h : s.Logs stream)
    (hpeeked : s.peeked = false) (hread : s.upcoming.read = .ok (t, rest)) :
    (s.events ++ lexed t).toList.filter Event.isLexed ++ s.upcoming.tokens.tail.map Event.lexed =
        stream.tokens.map Event.lexed ∧
      ∀ event ∈ s.events ++ lexed t, event.isFinished = false := by
  obtain ⟨-, hrest, hlexed⟩ := lexed_of_read h.proper hread
  have hown : (lexed t).toList.filter Event.isLexed = (lexed t).toList :=
    List.filter_eq_self.mpr fun event hevent => (event_lexed (by simpa using hevent)).1
  have htokens := h.tokens
  rw [unread, hpeeked, if_neg (by decide), ← hlexed, ← List.append_assoc] at htokens
  refine ⟨?_, fun event hevent => ?_⟩
  · rw [Array.toList_append, List.filter_append, hown, ← hrest]
    exact htokens
  · obtain hevent | hevent := Array.mem_append.mp hevent
    · exact h.unfinished event hevent
    · exact (event_lexed hevent).2

theorem Logs.keeps_record (stream : TokenStream) (event : Event) [hevent : event.OfProduction] :
    (Parse.record event).Keeps (Logs stream) := by
  intro s h
  have hlexed : event.isLexed = false := by cases hevent <;> rfl
  have hfinished : event.isFinished = false := by cases hevent <;> rfl
  have hafter : (Parse.record event).after s = { s with events := s.events.push event } := rfl
  rw [hafter]
  refine ⟨h.proper, ?_, fun other hother => ?_⟩
  · have hpush : (s.events.push event).toList.filter Event.isLexed =
        s.events.toList.filter Event.isLexed := by
      simp [hlexed]
    rw [hpush]
    exact h.tokens
  · obtain hother | rfl := Array.mem_push.mp hother
    · exact h.unfinished other hother
    · exact hfinished

theorem Logs.keeps_advance (stream : TokenStream) : Parse.advance.Keeps (Logs stream) := by
  intro s h
  unfold Parse.after Parse.advance
  cases hread : s.upcoming.read with
  | error e => exact h
  | ok next =>
    obtain ⟨t, rest⟩ := next
    obtain ⟨hproper, hrest, -⟩ := lexed_of_read h.proper hread
    cases hpeeked : s.peeked with
    | false =>
      obtain ⟨htokens, hunfinished⟩ := h.read hpeeked hread
      rw [← hrest] at htokens
      exact ⟨hproper, htokens, hunfinished⟩
    | true =>
      have htokens := h.tokens
      rw [unread, if_pos hpeeked, ← hrest] at htokens
      exact ⟨hproper, htokens, h.unfinished⟩

theorem Logs.keeps_peek (stream : TokenStream) : Parse.peek.Keeps (Logs stream) := by
  intro s h
  unfold Parse.after Parse.peek
  cases hread : s.upcoming.read with
  | error e => exact h
  | ok next =>
    obtain ⟨t, rest⟩ := next
    cases hpeeked : s.peeked with
    | false =>
      obtain ⟨htokens, hunfinished⟩ := h.read hpeeked hread
      exact ⟨h.proper, htokens, hunfinished⟩
    | true => exact h

/-- Every single step keeps that the tokens that were read are recorded once and in order. -/
instance stable_logs (stream : TokenStream) : Stable (Logs stream) where
  context _ _ _ h := ⟨h.proper, h.tokens, h.unfinished⟩
  record event := Logs.keeps_record stream event
  advance := Logs.keeps_advance stream
  peek := Logs.keeps_peek stream

/-- At the first token of a source this token was read, and recorded unless it is the end. -/
theorem logs_of_start {source : String} {settings : Settings}
    (h : ParseState.start source settings = .ok s) :
    s.Logs (TokenStream.ofSource source settings.file) := by
  have hproper : (TokenStream.ofSource source settings.file).Proper :=
    TokenStream.proper_ofScanner settings.file (Scanner.ofSource source)
  obtain ⟨t, rest, hread, rfl⟩ := ParseState.start_eq_ok_iff.mp h
  obtain ⟨hrest, -, hlexed⟩ := lexed_of_read hproper hread
  have hown : (lexed t).toList.filter Event.isLexed = (lexed t).toList :=
    List.filter_eq_self.mpr fun event hevent => (event_lexed (by simpa using hevent)).1
  exact ⟨hrest, by rw [hown]; exact hlexed, fun event hevent => (event_lexed hevent).2⟩

end ParseState

/-! ## The records of a parse -/

section Parse

variable {source : String} {settings : Settings} {s s' : ParseState}

open Parse

/-- A parse that begins at the first token of its source succeeds behind its statements or fails in
one of them. In the state that it reaches, the tokens that were read are recorded. -/
theorem parseRecorded_cases (h : ParseState.start source settings = .ok s) :
    (∃ (m : Module) (s' : ParseState), parseRecorded source settings =
        (.ok m, s'.events.push (.finished m.body.length settings.file)) ∧
      s'.Logs (TokenStream.ofSource source settings.file) ∧ s'.unread = []) ∨
    ∃ (failure : Failure) (s' : ParseState),
      parseRecorded source settings = (.error failure, s'.events) ∧
      s'.Logs (TokenStream.ofSource source settings.file) ∧
      bounded .standard settings (wholeSource settings.file) s = .error failure s' := by
  let down := descent .standard settings.elseRequired s.levels
  have hlogs := Parse.keeps (m := statements down .eof down.bound) s (ParseState.logs_of_start h)
  have hgoes := goes_of_start h
  unfold parseRecorded
  rw [h]
  dsimp only
  cases hbody : statements down .eof down.bound s with
  | ok body s' =>
    have hwhole : wholeSource settings.file down s =
        .ok ⟨body, ⟨0, settings.file⟩, s'.position⟩
          { s' with events := s'.events.push (.finished body.length settings.file) } :=
      bind_of_ok hbody
    rw [after_of_ok hbody] at hlogs
    rw [hwhole]
    refine .inl ⟨_, s', rfl, hlogs, ?_⟩
    -- the parse stands at the token for the end, so no token is left
    rw [hwhole] at hgoes
    cases hgoes with
    | ok leads =>
      have heof : s'.current.kind = .eof := kind_of_statements hbody
      have htokens : s'.upcoming.tokens = [] := (leads.placed.atEnd heof).1
      rw [ParseState.unread, htokens]
      split <;> rfl
  | error failure s' =>
    have hwhole : wholeSource settings.file down s = .error failure s' := bind_of_error hbody
    rw [after_of_error hbody] at hlogs
    rw [hwhole]
    exact .inr ⟨failure, s', rfl, hlogs, hwhole⟩

/-- Where a parse stops at a token, it has read no more than the next one. -/
theorem ParseState.Logs.length_le {stream : TokenStream} {index : Nat} (h : s.Logs stream)
    (hindex : index < stream.tokens.length) (hahead : s.ahead = stream.tokens.drop index) :
    (s.events.toList.filter Event.isLexed).length ≤ index + 2 := by
  have htokens := congrArg List.length h.tokens
  rw [List.length_append, List.length_map, List.length_map] at htokens
  have hne : s.current.kind ≠ .eof := by
    intro heof
    rw [ahead_eq_nil.mpr heof, eq_comm, List.drop_eq_nil_iff] at hahead
    omega
  have hlength := congrArg List.length hahead
  rw [ahead_of_ne_eof hne, List.length_cons, List.length_drop] at hlength
  have hunread : s.upcoming.tokens.length ≤ s.unread.length + 1 := by
    unfold unread
    split
    · rw [List.length_tail]
      omega
    · omega
  omega

/-- A parse that stops at a token has recorded no more than the tokens up to the next one. -/
theorem StopsAt.length_le {index : Nat} {e : Error} (h : StopsAt source settings index e) :
    ((parseRecorded source settings).2.toList.filter Event.isLexed).length ≤ index + 2 := by
  have herror := h.parse_eq
  obtain ⟨s, s', hs, hrun, hindex, hahead⟩ := h
  obtain ⟨m, s'', hrecorded, -⟩ | ⟨failure, s'', hrecorded, hlogs, hrun'⟩ := parseRecorded_cases hs
  · rw [parse, hrecorded] at herror
    cases herror
  · cases hrun.symm.trans hrun'
    rw [hrecorded]
    exact hlogs.length_le hindex hahead

/-- How a parse ends, and what it has recorded of the tokens of its source. -/
theorem exists_records (source : String) (settings : Settings) :
    (∃ (m : Module) (front : List Event), parse source settings = .ok m ∧
      (parseRecorded source settings).2.toList =
        front ++ [.finished m.body.length settings.file] ∧
      front.filter Event.isLexed =
        (TokenStream.ofSource source settings.file).tokens.map Event.lexed ∧
      ∀ event ∈ front, event.isFinished = false) ∨
    ∃ (failure : Failure), parse source settings = .error failure ∧
      (parseRecorded source settings).2.toList.filter Event.isLexed <+:
        (TokenStream.ofSource source settings.file).tokens.map Event.lexed ∧
      ∀ event ∈ (parseRecorded source settings).2.toList, event.isFinished = false := by
  cases hstart : ParseState.start source settings with
  | error e =>
    have hrecorded : parseRecorded source settings = (.error (.error e), #[]) := by
      rw [parseRecorded, hstart]
    rw [parse, hrecorded]
    exact .inr ⟨_, rfl, List.nil_prefix, by simp⟩
  | ok s =>
    obtain ⟨m, s', hrecorded, hlogs, hunread⟩ | ⟨failure, s', hrecorded, hlogs, -⟩ :=
      parseRecorded_cases hstart
    · have htokens := hlogs.tokens
      rw [hunread, List.map_nil, List.append_nil] at htokens
      rw [parse, hrecorded]
      exact .inl ⟨m, s'.events.toList, rfl, by simp, htokens, by simpa using hlogs.unfinished⟩
    · rw [parse, hrecorded]
      exact .inr ⟨failure, rfl, ⟨_, hlogs.tokens⟩, by simpa using hlogs.unfinished⟩

end Parse

/-- A parse reads its source in a single pass. Its records of tokens are, in order, the first of
those that reading all tokens of the source leaves. If it succeeds they are all of them, and behind
all records stands the one of the end, with the number of statements. If it fails there is no such
record, and if it fails at a token, no more than the token behind this one was read. -/
theorem records_of_parse (source : String) (settings : Settings) :
    let records := (parseRecorded source settings).2.toList
    let tokens := (tokenizeRecorded source settings.file).2.toList
    (tokenizeRecorded source settings.file).1 = tokenize source settings.file ∧
    records.filter Event.isLexed <+: tokens ∧
    (∀ m, parse source settings = .ok m → records.filter Event.isLexed = tokens ∧
      ∃ front, records = front ++ [.finished m.body.length settings.file] ∧
        ∀ event ∈ front, event.isFinished = false) ∧
    (∀ failure, parse source settings = .error failure →
      ∀ event ∈ records, event.isFinished = false) ∧
    ∀ e, parse source settings = .error (.error e) →
      ((∃ token expected, e.kind = .unexpectedToken token expected) ∨
        ∃ token, e.kind = .numberParseError token) →
      ∃ index t, tokens[index]? = some (.lexed t) ∧ e.position = t.span.start ∧
        StopsAt source settings index e ∧
        (records.filter Event.isLexed).length ≤ index + 2 ∧
        (source.utf8ByteSize < UInt32.size → ∀ i u, tokens[i]? = some (.lexed u) →
          u.span.start = e.position → i = index) := by
  intro records tokens
  have htokens : tokens = (TokenStream.ofSource source settings.file).tokens.map Event.lexed := by
    simp [tokens, tokenizeRecorded_eq]
  have hmem {i : Nat} {t : Token} : tokens[i]? = some (.lexed t) ↔
      (TokenStream.ofSource source settings.file).tokens[i]? = some t := by
    simp [htokens]
  have hstop (e : Error) (he : parse source settings = .error (.error e))
      (hkind : (∃ token expected, e.kind = .unexpectedToken token expected) ∨
        ∃ token, e.kind = .numberParseError token) :
      ∃ index t, tokens[index]? = some (.lexed t) ∧ e.position = t.span.start ∧
        StopsAt source settings index e ∧
        (records.filter Event.isLexed).length ≤ index + 2 ∧
        (source.utf8ByteSize < UInt32.size → ∀ i u, tokens[i]? = some (.lexed u) →
          u.span.start = e.position → i = index) := by
    obtain ⟨index, t, ht, hposition, hstops⟩ := exists_stopsAt he hkind
    exact ⟨index, t, hmem.mpr ht, hposition, hstops, hstops.length_le, fun hsize i u hu hstart =>
      TokenStream.index_unique hsize (hmem.mp hu) ht (hstart.trans hposition)⟩
  obtain ⟨m, front, hm, hrecords, hlexed, hfront⟩ | ⟨failure, hfailure, hlexed, hunfinished⟩ :=
    exists_records source settings
  · have hall : records.filter Event.isLexed = tokens := by
      change records = _ at hrecords
      rw [hrecords, List.filter_append, hlexed, htokens]
      exact List.append_nil _
    refine ⟨by rw [tokenizeRecorded_eq], hall ▸ List.prefix_rfl, fun m' hm' => ⟨hall, ?_⟩,
      fun failure hfailure => ?_, hstop⟩
    · cases hm.symm.trans hm'
      exact ⟨front, hrecords, hfront⟩
    · cases hm.symm.trans hfailure
  · refine ⟨by rw [tokenizeRecorded_eq], htokens ▸ hlexed, fun m hm => ?_,
      fun _ _ => hunfinished, hstop⟩
    cases hfailure.symm.trans hm

/-- A parse stops at the fourth of seven tokens and has read at most five; another one reads all. -/
theorem records_of_parse_names :
    parse "f(a b) c d" {} =
      .error (.error ⟨.unexpectedToken "b" [.comma, .closeParen], ⟨4, "shell"⟩⟩) ∧
    (tokenizeRecorded "f(a b) c d" "shell").2.size = 7 ∧
    ((parseRecorded "f(a b) c d" {}).2.toList.filter Event.isLexed).length ≤ 3 + 2 ∧
    ∃ m, parse "a.b; c" {} = .ok m ∧
      (parseRecorded "a.b; c" {}).2.toList.filter Event.isLexed =
        (tokenizeRecorded "a.b; c" "shell").2.toList ∧
      ∃ front, (parseRecorded "a.b; c" {}).2.toList =
          front ++ [.finished m.body.length "shell"] ∧
        ∀ event ∈ front, event.isFinished = false := by
  have herror : parse "f(a b) c d" {} =
      .error (.error ⟨.unexpectedToken "b" [.comma, .closeParen], ⟨4, "shell"⟩⟩) :=
    parseError?_eq_some_iff.mp (by decide +kernel)
  obtain ⟨m, hm⟩ : ∃ m, parse "a.b; c" {} = .ok m := exists_of_isOk (by decide +kernel)
  obtain ⟨-, -, -, -, hstop⟩ := records_of_parse "f(a b) c d" {}
  obtain ⟨index, t, -, -, -, hlength, hunique⟩ := hstop _ herror (.inl ⟨_, _, rfl⟩)
  have hindex : 3 = index := hunique (by decide) 3 ⟨.identifier, "b",
    ⟨⟨4, "shell"⟩, ⟨5, "shell"⟩⟩, false⟩ (by decide +kernel) rfl
  rw [← hindex] at hlength
  obtain ⟨-, -, hok, -, -⟩ := records_of_parse "a.b; c" {}
  obtain ⟨hlexed, hlast⟩ := hok m hm
  exact ⟨herror, by decide +kernel, hlength, m, hm, hlexed, hlast⟩

end SurfaceGrammar

import SurfaceGrammar.Proofs.Grammar.Failures
import SurfaceGrammar.Proofs.Grammar.Forking
import SurfaceGrammar.Proofs.Token.Samples

/-!
# What a parse expects

A parse that stops at a token lists the kinds of tokens that could have stood there. In place of
the token, and of all that follows it, each of them is passed: the parse of the source in front of
the token, with a token of such a kind behind it, succeeds or stops at the end. A parse that asks
for branches may also find then that one is lacking. What the list says behind the name of a
function is left open.

* `Fork.exists_start`: the states in which two parses with a fork begin.
* `Fork.parse_of_lists`: the parse that has a token of a listed kind in place of a refused one.
* `Refusal`: a parse that stops at a token and lists kinds.
* `ReachesEnd`: the parse of a source succeeds or stops at the end.
* `reachesEnd_of_expected`: what a parse comes to with what it expected.
* `FalselyExpects`: what a parse expects and does not pass.
-/

namespace SurfaceGrammar

/-! ## Where the parses begin -/

namespace Front

variable {front : Front} {v ts : List Token} {stream : TokenStream}

/-- The tokens of a stream come up to each of its tokens. -/
theorem Comes.of_tokens (hv : ∀ t ∈ v, t.kind ≠ .eof) (htokens : stream.tokens = v ++ ts)
    (hread : (⟨ts, stream.ending⟩ : TokenStream).read = .ok (front.token, front.behind)) :
    front.Comes v stream := by
  obtain ⟨tokens, ending⟩ := stream
  subst htokens
  induction v with
  | nil => exact .here hread
  | cons t v ih =>
    exact .later rfl (hv t List.mem_cons_self)
      (ih (fun u hu => hv u (List.mem_cons_of_mem t hu)) hread)

/-- A parse begins with what comes. -/
theorem Comes.exists_start {source : String} {settings : Settings}
    (h : front.Comes v (TokenStream.ofSource source settings.file)) :
    ∃ s, ParseState.start source settings = .ok s ∧ s.Faces front v ∧
      s.lastEnd = ⟨0, settings.file⟩ ∧ s.groupDepth = 0 ∧ s.inReturnType = false := by
  cases h with
  | here read =>
    have hs := ParseState.start_eq_ok_iff.mpr ⟨_, _, read, rfl⟩
    exact ⟨_, hs, .here (ParseState.of_start hs).1 rfl rfl, rfl, rfl, rfl⟩
  | later read ne_eof tail =>
    have hs := ParseState.start_eq_ok_iff.mpr ⟨_, _, read, rfl⟩
    exact ⟨_, hs, .later (ParseState.of_start hs).1 rfl ne_eof tail, rfl, rfl, rfl⟩

end Front

/-! ## The statements of a source -/

section Statements

variable {source : String} {settings : Settings} {down : Descent} {s s₁ : ParseState}

/-- A source is parsed as far as its statements are. -/
theorem statements_of_wholeSource {file : String} {failure : Failure}
    (h : Parse.wholeSource file down s = .error failure s₁) :
    Parse.statements down .eof down.bound s = .error failure s₁ := by
  cases hstatements : Parse.statements down .eof down.bound s with
  | ok body s₂ => cases (Parse.bind_of_ok hstatements).symm.trans h
  | error failure' s₂ =>
    cases (Parse.bind_of_error hstatements).symm.trans h
    rfl

/-- What a parse comes to with enough levels for its tokens. -/
theorem parse_of_statements (hs : ParseState.start source settings = .ok s) {levels : Nat}
    (hlevels : s.ahead.length < levels)
    (hdown : down = descent .standard settings.elseRequired levels) :
    (∀ body s₁, Parse.statements down .eof down.bound s = .ok body s₁ →
      ∃ m, parse source settings = .ok m) ∧
    ∀ failure s₁, Parse.statements down .eof down.bound s = .error failure s₁ →
      parse source settings = .error failure := by
  subst hdown
  rw [parse_of_start hs, ← wholeSource_of_levels settings.file settings.elseRequired
    (ParseState.of_start hs).1 hlevels]
  constructor
  · intro body s₁ h
    rw [Parse.wholeSource, Parse.bind_of_ok h]
    exact ⟨_, rfl⟩
  · intro failure s₁ h
    rw [Parse.wholeSource, Parse.bind_of_error h]

end Statements

/-! ## From a refused token to one that is passed -/

namespace Fork

variable {β : Type} {F : Fork} {source source' : String} {settings : Settings} {e : Error}
  {s s' s₁ : ParseState}

theorem exists_start (hold : F.old.Comes F.before (TokenStream.ofSource source settings.file))
    (hnew : F.new.Comes F.before (TokenStream.ofSource source' settings.file)) :
    ∃ s s', ParseState.start source settings = .ok s ∧ ParseState.start source' settings = .ok s' ∧
      F.Paired F.before s s' := by
  obtain ⟨s, hs, hfaces, hend, hdepth, htype⟩ := hold.exists_start
  obtain ⟨s', hs', hfaces', hend', hdepth', htype'⟩ := hnew.exists_start
  refine ⟨s, s', hs, hs', ⟨hfaces, hfaces', hend'.trans hend.symm, hdepth'.trans hdepth.symm,
    htype'.trans htype.symm, List.suffix_rfl⟩, ?_⟩
  rintro ⟨point, field, w, -, hpoint, -⟩
  exact Nat.not_succ_le_self _ hpoint.length_le

/-- What comes out where the new parse has passed its token: only the token for the end is left. -/
theorem ending_of_clears {r : EStateM.Result Failure ParseState β}
    (h : Clears F.strict F.new r) : F.new.token.kind ≠ .eof ∧
      ((∃ b t, r = .ok b t) ∨ (∃ t, r = .error .exhausted t) ∨
        ∃ e t, r = .error (.error e) t ∧
          (e.position = F.stop.span.start ∨ F.strict ∧ e.kind = .missingElseBranch)) := by
  cases h with
  | unreadable ne_eof ending =>
    rw [F.behind_new] at ending
    cases ending
  | @goes t _ ne_eof placed fewer ending goes =>
    refine ⟨ne_eof, ?_⟩
    rw [F.behind_new] at fewer ending
    have hnil : t.ahead = [] := List.length_eq_zero_iff.mp (Nat.le_zero.mp fewer)
    cases goes with
    | ok _ => exact .inl ⟨_, _, rfl⟩
    | exhausted _ => exact .inr (.inl ⟨_, rfl⟩)
    | @error e u leads raises =>
      refine .inr (.inr ⟨e, u, rfl, ?_⟩)
      have heof : u.current.kind = .eof := by
        have hsuffix := leads.suffix
        rw [hnil] at hsuffix
        exact ParseState.ahead_eq_nil.mp (List.suffix_nil.mp hsuffix)
      have hstop : u.current = F.stop := leads.current_of_eof heof ending
      cases raises with
      | unreadable hending =>
        rw [leads.ending, ending] at hending
        cases hending
      | unexpected expected =>
        rw [ParseState.unexpected, if_pos heof]
        exact .inl (congrArg (·.span.start) hstop)
      | number kind =>
        rw [heof] at kind
        cases kind
      | lacking _ strict => exact .inr ⟨strict, rfl⟩

/-- The old parse stops at its front with an error that lists the kind of the new token. So it has
not passed the front, and the new parse does not part from it before it passes its own. -/
theorem Halt.of_lists {stopOld stopNew : Prop} {Q : List Token → β → Prop}
    {r' : EStateM.Result Failure ParseState β}
    (h : F.Halt stopOld stopNew Q (.error (.error e) s₁) r')
    (hahead : s₁.ahead.length = F.old.length) (hlists : F.Lists e.kind.expected) :
    Clears F.strict F.new r' ∨ (∃ t, r' = .error .exhausted t) ∨ stopNew ∧ ∃ b t, r' = .ok b t := by
  cases h with
  | new result _ stop => exact .inr (.inr ⟨stop, _, _, result⟩)
  | old result _ _ => cases result
  | outcome outcome =>
    cases outcome with
    | passed clears => exact .inl clears
    | exhausted => exact .inr (.inl ⟨_, rfl⟩)
    | refused apart => exact absurd hlists (apart hahead)
    | cleared clears =>
      cases clears with
      | unreadable _ ending =>
        have hmem := hlists.1
        rw [F.fault e ending] at hmem
        cases hmem
      | goes ne_eof _ fewer _ goes =>
        cases goes with
        | error leads _ =>
          have hle := leads.suffix.length_le
          rw [hahead, Front.length, if_neg ne_eof] at hle
          omega

/-- The parse that has a token of a listed kind in place of a refused one. If the token is the one
for the end, the parse succeeds. -/
theorem parse_of_lists (hold : F.old.Comes F.before (TokenStream.ofSource source settings.file))
    (hnew : F.new.Comes F.before (TokenStream.ofSource source' settings.file))
    (hstrict : settings.elseRequired = true → F.strict)
    (hs : ParseState.start source settings = .ok s)
    (hrun : Parse.wholeSource settings.file (descent .standard settings.elseRequired s.levels) s =
      .error (.error e) s₁)
    (hahead : s₁.ahead.length = F.old.length) (hlists : F.Lists e.kind.expected) :
    (∃ m, parse source' settings = .ok m) ∨ F.new.token.kind ≠ .eof ∧
      ∃ e', parse source' settings = .error (.error e') ∧
        (e'.position = F.stop.span.start ∨ F.strict ∧ e'.kind = .missingElseBranch) := by
  obtain ⟨t, s', ht, hs', hpair⟩ := exists_start hold hnew
  obtain rfl : t = s := Except.ok.inj (ht.symm.trans hs)
  have hplaced := (ParseState.of_start hs).1
  -- Both parses have enough levels in common.
  let levels := max t.ahead.length s'.ahead.length + 1
  have hlevels : t.ahead.length < levels := Nat.lt_succ_of_le (Nat.le_max_left ..)
  have hlevels' : s'.ahead.length < levels := Nat.lt_succ_of_le (Nat.le_max_right ..)
  obtain ⟨hok, herror⟩ := parse_of_statements hs' hlevels' rfl
  rw [← wholeSource_of_levels settings.file settings.elseRequired hplaced hlevels] at hrun
  have : Fact (settings.elseRequired = true → F.strict) := ⟨hstrict⟩
  have hhalt := halt_statements (descent .standard settings.elseRequired levels)
    (by decide : TokenKind.eof ≠ .semicolon)
    (descent .standard settings.elseRequired levels).bound hpair
  rw [statements_of_wholeSource hrun] at hhalt
  have hends {failure : Failure} {u : ParseState} (hu : Parse.statements
      (descent .standard settings.elseRequired levels) .eof
      (descent .standard settings.elseRequired levels).bound s' = .error failure u) :
      failure ≠ .exhausted := by
    obtain ⟨e', rfl⟩ := exists_error_of_parse (herror failure u hu)
    simp
  obtain hclears | ⟨u, hu⟩ | ⟨-, body, u, hu⟩ := hhalt.of_lists hahead hlists
  · obtain ⟨hne, ⟨body, u, hu⟩ | ⟨u, hu⟩ | ⟨e', u, hu, hend⟩⟩ := ending_of_clears hclears
    · exact .inl (hok body u hu)
    · exact absurd rfl (hends hu)
    · exact .inr ⟨hne, e', herror _ u hu, hend⟩
  · exact absurd rfl (hends hu)
  · exact .inl (hok body u hu)

end Fork

/-! ## Errors that list kinds -/

theorem ErrorKind.expected_of_isLexical {kind : ErrorKind} (h : kind.isLexical = true) :
    kind.expected = [] := by
  cases kind
  case unexpectedToken | unexpectedEndOfInput => cases h
  all_goals rfl

/-- An error that lists kinds is about the token at which the parse stands. -/
theorem ParseState.Raises.eq_unexpected {G : Course} {s : ParseState} {e : Error}
    (h : s.Raises G e) (hending : ∀ e', s.upcoming.ending = .error e' → e'.kind.expected = [])
    (hne : e.kind.expected ≠ []) : e = s.unexpected e.kind.expected := by
  cases h with
  | unreadable ending => exact absurd (hending e ending) hne
  | unexpected expected => rw [Fork.Outcome.kind_unexpected]
  | number kind => exact absurd rfl hne
  | lacking begins strict => exact absurd rfl hne

/-- An error that the input ends stands at the end. -/
theorem position_of_unexpectedEndOfInput {source : String} {settings : Settings} {e : Error}
    {expected : List TokenKind} (h : parse source settings = .error (.error e))
    (hkind : e.kind = .unexpectedEndOfInput expected) {stop : Token}
    (hending : (TokenStream.ofSource source settings.file).ending = .ok stop) :
    e.position = stop.span.start := by
  obtain hfault | ⟨s, s', hs, -, hleads, hraises⟩ := raises_of_parse h
  · rw [hending] at hfault
    cases hfault
  have hstop : s.upcoming.ending = .ok stop := (ParseState.of_start hs).2.2.2.trans hending
  cases hraises with
  | unreadable ending =>
    rw [hleads.ending, hstop] at ending
    cases ending
  | unexpected expected' =>
    unfold ParseState.unexpected at hkind ⊢
    split at hkind
    · next heof =>
      rw [if_pos heof, ← hleads.current_of_eof heof hstop]
      rfl
    · cases hkind
  | number kind => cases hkind
  | lacking begins strict => cases hkind

/-- A parse stops at a token and lists kinds of others. The tokens before it were passed. -/
structure Refusal (source : String) (settings : Settings) (e : Error) (before : List Token)
    (s s₁ : ParseState) : Prop where
  start : ParseState.start source settings = .ok s
  run : Parse.wholeSource settings.file (descent .standard settings.elseRequired s.levels) s =
    .error (.error e) s₁
  placed : s₁.Placed
  tokens : (TokenStream.ofSource source settings.file).tokens = before ++ s₁.ahead
  ending : s₁.upcoming.ending = (TokenStream.ofSource source settings.file).ending
  error : e = s₁.unexpected e.kind.expected

theorem TokenStream.expected_of_ending {source file : String} {e : Error}
    (h : (ofSource source file).ending = .error e) : e.kind.expected = [] :=
  ErrorKind.expected_of_isLexical (isLexical_ofSource h)

theorem exists_refusal {source : String} {settings : Settings} {e : Error}
    (h : parse source settings = .error (.error e)) (hne : e.kind.expected ≠ []) :
    ∃ before s s₁, Refusal source settings e before s s₁ := by
  obtain hfault | ⟨s, s₁, hs, hrun, hleads, hraises⟩ := raises_of_parse h
  · exact absurd (TokenStream.expected_of_ending hfault) hne
  obtain ⟨-, -, hahead, hending⟩ := ParseState.of_start hs
  obtain ⟨before, hbefore⟩ := hleads.suffix
  have hending₁ := hleads.ending.trans hending
  refine ⟨before, s, s₁, hs, hrun, hleads.placed, hahead ▸ hbefore.symm, hending₁,
    hraises.eq_unexpected (fun e' he' => ?_) hne⟩
  exact TokenStream.expected_of_ending (hending₁ ▸ he')

namespace Refusal

variable {source source' : String} {settings : Settings} {e : Error} {before : List Token}
  {s s₁ : ParseState} {t stop : Token}

theorem position (h : Refusal source settings e before s s₁) :
    e.position = s₁.current.span.start := by
  rw [h.error]
  unfold ParseState.unexpected
  split <;> rfl

/-- The refused token is the next one of the source behind those before it. -/
theorem read (h : Refusal source settings e before s s₁) :
    (⟨s₁.ahead, (TokenStream.ofSource source settings.file).ending⟩ : TokenStream).read =
      .ok (s₁.current, s₁.upcoming) := by
  rw [← h.ending]
  by_cases heof : s₁.current.kind = .eof
  · obtain ⟨hnil, hending⟩ := h.placed.atEnd heof
    have hupcoming : s₁.upcoming = ⟨[], .ok s₁.current⟩ := by rw [← hnil, ← hending]
    rw [ParseState.ahead_eq_nil.mpr heof, hupcoming]
    rfl
  · rw [ParseState.ahead_of_ne_eof heof]
    rfl

theorem ne_eof (h : Refusal source settings e before s s₁) : ∀ t ∈ before, t.kind ≠ .eof := by
  intro t ht
  have hproper := TokenStream.proper_ofScanner settings.file (Scanner.ofSource source)
  refine (hproper.tokens t ?_).ne_eof
  change t ∈ (TokenStream.ofSource source settings.file).tokens
  rw [h.tokens]
  exact List.mem_append_left _ ht

/-- The parse with another token in place of the refused one, if its kind is listed. -/
theorem parse_of_token (h : Refusal source settings e before s s₁)
    (hcomes : (⟨t, ⟨[], .ok stop⟩⟩ : Front).Comes before
      (TokenStream.ofSource source' settings.file))
    (hline : t.newlineBefore = s₁.current.newlineBefore) (hplain : t.Plain)
    (hlisted : t.kind ∈ e.kind.expected)
    (hname : e.kind.expected = [.identifier, .openParen] → t.kind = .identifier →
      ¬Fork.EndsWithName before) :
    (∃ m, parse source' settings = .ok m) ∨ t.kind ≠ .eof ∧
      ∃ e', parse source' settings = .error (.error e') ∧
        (e'.position = stop.span.start ∨
          settings.elseRequired = true ∧ e'.kind = .missingElseBranch) := by
  let F : Fork :=
    { before
      old := ⟨s₁.current, s₁.upcoming⟩
      new := ⟨t, ⟨[], .ok stop⟩⟩
      strict := settings.elseRequired = true
      stop
      behind_new := rfl
      line := hline
      plain := hplain
      fault := fun e' he' => TokenStream.expected_of_ending (h.ending ▸ he') }
  have hold : F.old.Comes F.before (TokenStream.ofSource source settings.file) :=
    .of_tokens h.ne_eof h.tokens h.read
  have hfaces : s₁.Faces F.old [] := .here h.placed rfl rfl
  refine F.parse_of_lists hold hcomes id h.start h.run ?_ ⟨hlisted, ?_⟩
  · simpa using hfaces.length_ahead
  · rintro ⟨hexpected, hkind, hnamed⟩
    exact hname hexpected hkind hnamed

end Refusal

/-! ## What is expected is passed -/

theorem Token.Plain.of_eof {t : Token} (h : t.kind = .eof) : t.Plain where
  keyword := keyword?_eq_none (h ▸ by decide)
  number hnumber := by simp [h] at hnumber
  char hchar := by simp [h] at hchar

/-- The samples are read to expressions of their own, if any token of their kind is. -/
theorem Lexeme.plain_of_sample {t : Token} {kind : TokenKind} (hkind : t.kind = kind)
    (hvalue : t.value = (sample kind).value) : t.Plain where
  keyword := by
    by_cases hidentifier : t.kind = .identifier
    · rw [Token.keyword?, if_pos hidentifier, hvalue, ← hkind, hidentifier]
      decide
    · exact Token.keyword?_eq_none hidentifier
  number hnumber := by
    rw [hvalue, ← hkind, hnumber]
    exact Option.isSome_iff_exists.mp (by decide +kernel)
  char hchar := by
    rw [hvalue, ← hkind, hchar]
    decide

/-- The last tokens of a source are the word of a function, which is no field behind a point on its
line, and a name. -/
def EndsWithFunctionName (source file : String) : Prop :=
  Fork.EndsWithName (TokenStream.ofSource source file).tokens

/-- The parse of a source succeeds, or stops at the end, or asks for a branch that is lacking. -/
def ReachesEnd (source : String) (settings : Settings) : Prop :=
  (∃ m, parse source settings = .ok m) ∨ ∃ e, parse source settings = .error (.error e) ∧
    (e.position = .ofOffset source.utf8ByteSize settings.file ∨
      settings.elseRequired = true ∧ e.kind = .missingElseBranch)

namespace Refusal

variable {source front : String} {settings : Settings} {e : Error} {before : List Token}
  {s s₁ : ParseState} {own : Scanner} {kind : TokenKind}

/-- If the end is expected, the source in front of the token is parsed. -/
theorem parse_front (h : Refusal source settings e before s s₁)
    (hcut : Cut settings.file front before s₁.current own)
    (hlisted : .eof ∈ e.kind.expected) : ∃ m, parse front settings = .ok m := by
  obtain ⟨stop, hfront, hstop⟩ := hcut.ofSource_front
  have heof : stop.unplaced.kind = .eof := by rw [hstop]
  have hline : stop.unplaced.newlineBefore = s₁.current.newlineBefore := by rw [hstop]
  have hcomes : (⟨stop, ⟨[], .ok stop⟩⟩ : Front).Comes before
      (TokenStream.ofSource front settings.file) :=
    .of_tokens h.ne_eof (by rw [hfront, List.append_nil]) (by rw [hfront]; rfl)
  obtain hparsed | ⟨hne, -⟩ := h.parse_of_token hcomes hline (.of_eof heof)
    (heof ▸ hlisted : stop.unplaced.kind ∈ _)
    (fun _ hidentifier => by cases heof.symm.trans hidentifier)
  · exact hparsed
  · exact absurd heof hne

/-- A token of a kind that is expected is passed in place of the refused one. -/
theorem reachesEnd_of_isTrivia (h : Refusal source settings e before s s₁)
    (hcut : Cut settings.file front before s₁.current own) (hgap : IsTrivia own.rest)
    (hne : kind ≠ .eof) (hlisted : kind ∈ e.kind.expected)
    (hname : ¬(kind = .identifier ∧ e.kind.expected = [.identifier, .openParen] ∧
      EndsWithFunctionName front settings.file)) :
    ReachesEnd (front ++ " " ++ String.ofList (Lexeme.sample kind).text) settings := by
  obtain ⟨stop, hfront, -⟩ := hcut.ofSource_front
  obtain ⟨t, stop', hstream, hkind, hvalue, hline, -, hposition⟩ :=
    hcut.ofSource_sample hgap (Lexeme.stands_sample hne)
  rw [Lexeme.kind_sample] at hkind
  have hcomes : (⟨t, ⟨[], .ok stop'⟩⟩ : Front).Comes before (TokenStream.ofSource
      (front ++ " " ++ String.ofList (Lexeme.sample kind).text) settings.file) :=
    .of_tokens h.ne_eof (by rw [hstream]) (by rw [hstream]; rfl)
  obtain hparsed | ⟨-, e', he', hends⟩ := h.parse_of_token hcomes hline
    (Lexeme.plain_of_sample hkind hvalue) (hkind ▸ hlisted) fun hexpected hidentifier hnamed =>
      hname ⟨hkind ▸ hidentifier, hexpected, by rwa [EndsWithFunctionName, hfront]⟩
  · exact .inl hparsed
  · exact .inr ⟨e', he', hposition ▸ hends⟩

/-- Behind a line comment that is open a token does not change anything. The parse stops at the
end, as it did before. -/
theorem reachesEnd_of_isOpen (h : Refusal source settings e before s s₁)
    (hcut : Cut settings.file front before s₁.current own) (hgap : IsOpen own.rest)
    (heof : s₁.current.kind = .eof) (hparse : parse source settings = .error (.error e))
    {text : List Char} (htext : '\n' ∉ text) :
    ReachesEnd (front ++ " " ++ String.ofList text) settings := by
  obtain ⟨stop, hstream, hstop, hposition⟩ := hcut.ofSource_comment hgap htext
  have hending : (TokenStream.ofSource source settings.file).ending = .ok s₁.current :=
    h.ending ▸ (h.placed.atEnd heof).2
  have hsource : TokenStream.ofSource source settings.file = ⟨before, .ok s₁.current⟩ := by
    rw [← hending, ← List.append_nil before, ← ParseState.ahead_eq_nil.mpr heof, ← h.tokens]
  have hsame := sameOutcome_of_tokenize (tokenize_eq_ok_iff.mpr ⟨_, _, hsource, rfl⟩)
    (tokenize_eq_ok_iff.mpr ⟨_, _, hstream, rfl⟩) (by
      rw [List.map_append, List.map_append, List.map_singleton, List.map_singleton, hstop,
        TokenStream.unplaced_of_ending hending])
  rw [hparse] at hsame
  generalize hparse' : parse (front ++ " " ++ String.ofList text) settings = r at hsame
  cases hsame with
  | @error _ e' beside =>
    have hkind : e'.kind = .unexpectedEndOfInput e.kind.expected := by
      rw [beside.1, h.error, Fork.Outcome.kind_unexpected, ParseState.unexpected, if_pos heof]
    have hend := position_of_unexpectedEndOfInput hparse' hkind (by rw [hstream])
    exact .inr ⟨e', hparse', .inl (hend.trans hposition)⟩

end Refusal

/-- What a parse expects could have followed. A parse that lists kinds of tokens stops where one of
its tokens begins, or at the end. If it expects the end, the source in front of that place is
parsed. For every other kind that is listed there is a text of a token, and the source in front of
the place, with a space and this text behind it, is parsed as well or not parsed only because
something else lacks: at its end, or a branch that is asked for. Nothing is said of a name behind
the name of a function. -/
theorem reachesEnd_of_expected {source : String} {settings : Settings} {e : Error}
    {kind : TokenKind} (h : parse source settings = .error (.error e))
    (hkind : kind ∈ e.kind.expected) :
    ∃ front back, source = front ++ back ∧
      e.position = .ofOffset front.utf8ByteSize settings.file ∧
      (kind = .eof → ∃ m, parse front settings = .ok m) ∧
      (kind ≠ .eof →
        ¬(kind = .identifier ∧ e.kind.expected = [.identifier, .openParen] ∧
          EndsWithFunctionName front settings.file) →
        ∃ text, kind.IsText text ∧ ReachesEnd (front ++ " " ++ text) settings) := by
  obtain ⟨before, s, s₁, hrefusal⟩ := exists_refusal h (List.ne_nil_of_mem hkind)
  obtain ⟨front, back, own, hsource, hcut⟩ := exists_cut hrefusal.tokens hrefusal.read
  refine ⟨front, back, hsource, hrefusal.position.trans hcut.position, ?_, fun hne hname => ?_⟩
  · rintro rfl
    exact hrefusal.parse_front hcut hkind
  · refine ⟨_, Lexeme.isText_sample hne, ?_⟩
    obtain hgap | ⟨hgap, heof⟩ := hcut.gap
    · exact hrefusal.reachesEnd_of_isTrivia hcut hgap hne hkind hname
    · exact hrefusal.reachesEnd_of_isOpen hcut hgap heof h (Lexeme.noLineFeed_sample hne)

/-- A bracket that is not closed. -/
theorem reachesEnd_of_expected_bracket :
    let e : Error := ⟨.unexpectedToken "b" [.comma, .closeParen], ⟨3, "shell"⟩⟩
    parse "(a b" {} = .error (.error e) ∧ .closeParen ∈ e.kind.expected ∧
      ∃ front back, "(a b" = front ++ back ∧
        e.position = .ofOffset front.utf8ByteSize "shell" ∧
        (TokenKind.closeParen = .eof → ∃ m, parse front {} = .ok m) ∧
        (TokenKind.closeParen ≠ .eof →
          ¬(TokenKind.closeParen = .identifier ∧ e.kind.expected = [.identifier, .openParen] ∧
            EndsWithFunctionName front "shell") →
          ∃ text, TokenKind.closeParen.IsText text ∧ ReachesEnd (front ++ " " ++ text) {}) := by
  intro e
  have hparse : parse "(a b" {} = .error (.error e) :=
    parseError?_eq_some_iff.mp (by decide +kernel)
  have hlisted : TokenKind.closeParen ∈ e.kind.expected := by decide
  exact ⟨hparse, hlisted, reachesEnd_of_expected hparse hlisted⟩

/-! ## What is expected and not passed -/

/-- A parse stops between two texts and expects a kind there. But whatever text of the kind follows
the first one and a space, the parse stops at the beginning of that text or before. -/
def FalselyExpects (front back : String) (settings : Settings) (kind : TokenKind) : Prop :=
  (∃ e, parse (front ++ back) settings = .error (.error e) ∧ kind ∈ e.kind.expected ∧
    e.position = .ofOffset front.utf8ByteSize settings.file) ∧
  ∀ text, kind.IsText text → ∃ e, parse (front ++ " " ++ text) settings = .error (.error e) ∧
    e.position.byte ≤ (front ++ " ").utf8ByteSize

/-- Where a branch lacks that is asked for, the bracket that closes the other branch is passed, and
then the error stands at the beginning of the conditional. -/
theorem falselyExpects_closeParen :
    FalselyExpects "(if a then (b " "c" { elseRequired := true } .closeParen := by
  constructor
  · exact ⟨⟨.unexpectedToken "c" [.comma, .closeParen], ⟨14, "shell"⟩⟩,
      parseError?_eq_some_iff.mp (by decide +kernel), by decide, by decide⟩
  · rintro text ⟨l, hkind, htext, c, rest, hcons, -, hrecognise⟩
    have hmark := Lexeme.text_of_mark hrecognise (by rw [hkind]; decide)
    obtain rfl : text = ")" := by
      rw [← String.ofList_toList (s := text), ← htext, hmark, hkind]
      rfl
    exact ⟨⟨.missingElseBranch, ⟨1, "shell"⟩⟩, parseError?_eq_some_iff.mp (by decide +kernel),
      by decide⟩

/-- Behind the name of a function no other name is passed, although the list of what is expected
has it. -/
theorem falselyExpects_identifier : FalselyExpects "fn f " "x" {} .identifier := by
  constructor
  · exact ⟨⟨.unexpectedToken "x" [.identifier, .openParen], ⟨5, "shell"⟩⟩,
      parseError?_eq_some_iff.mp (by decide +kernel), by decide, by decide⟩
  · rintro text ⟨l, hkind, htext, hstands⟩
    let word : Token := ⟨.identifier, "fn", ⟨⟨0, "shell"⟩, ⟨2, "shell"⟩⟩, false⟩
    let name : Token := ⟨.identifier, "f", ⟨⟨3, "shell"⟩, ⟨4, "shell"⟩⟩, false⟩
    let mark : Token := ⟨.identifier, "x", ⟨⟨5, "shell"⟩, ⟨6, "shell"⟩⟩, false⟩
    have hword : (Scanner.ofSource "fn f ").scan "shell" =
        .token word ⟨" f ".toList, 2, false, true⟩ := by
      decide +kernel
    have hname : Scanner.scan "shell" ⟨" f ".toList, 2, false, true⟩ =
        .token name ⟨" ".toList, 4, false, true⟩ := by
      decide +kernel
    have hcut : Cut "shell" "fn f " [word, name] mark ⟨" ".toList, 4, false, true⟩ :=
      { reads := .step hword (.step hname (.refl _))
        ends := by decide +kernel
        line := by decide +kernel
        position := by decide +kernel
        gap := .inl (.blank (by decide) .nil) }
    obtain ⟨t, stop, hstream, htkind, -, -, hposition, -⟩ :=
      hcut.ofSource_sample (.blank (by decide) .nil) (Lexeme.stands_of_identifier hkind hstands)
    rw [htext, String.ofList_toList] at hstream
    obtain ⟨kind, value, span, line⟩ := t
    obtain rfl : kind = .identifier := htkind.trans hkind
    have hsource : TokenStream.ofSource ("fn f " ++ " " ++ text) ({} : Settings).file =
        ⟨[word, name, ⟨.identifier, value, span, line⟩], .ok stop⟩ := hstream
    have hparse : parse ("fn f " ++ " " ++ text) {} =
        .error (.error ⟨.unexpectedToken value [.identifier, .openParen], span.start⟩) := by
      unfold parse parseRecorded ParseState.start
      rw [hsource]
      rfl
    have hstart : span.start = .ofOffset ("fn f " ++ " ").utf8ByteSize "shell" := hposition
    refine ⟨_, hparse, ?_⟩
    rw [hstart]
    exact Nat.le_of_eq rfl

end SurfaceGrammar

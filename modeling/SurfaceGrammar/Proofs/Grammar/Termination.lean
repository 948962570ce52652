import SurfaceGrammar.Proofs.Grammar.Leaves
import SurfaceGrammar.Proofs.Grammar.Soundness
import SurfaceGrammar.Proofs.Grammar.Tandem

/-!
# A parse ends

Every success of an expression or a statement and every round of a loop passes tokens of the
source, a production goes down a level only where fewer tokens are left than where it began, and
nothing is read behind the token for the end. So a number of levels that is greater than that of
the tokens is never reached, and any such number gives the same parse.

* `Passing`: every success of a step passes tokens.
* `Round`, `Rounds`: every round of a loop ends it or passes tokens.
* `Descent.below`: calls a level below, refused where too many tokens are left.
* `parseStream`: the parse of a stream of tokens.
* `parse_progress`: all this together, for every source.
-/

namespace SurfaceGrammar

/-! ## Steps that pass tokens -/

/-- Every success of a step passes a list of tokens and leaves the context as it was. -/
def Steady {β : Type} (m : Parse β) : Prop :=
  ∀ ⦃s : ParseState⦄ ⦃b : β⦄ ⦃s' : ParseState⦄, s.Placed → m s = .ok b s' →
    ∃ w, s.Passes w s'

/-- Every success of a step passes at least one token, and never the one for the end. -/
def Passing {β : Type} (m : Parse β) : Prop :=
  ∀ ⦃s : ParseState⦄ ⦃b : β⦄ ⦃s' : ParseState⦄, s.Placed → m s = .ok b s' →
    ∃ w, w ≠ [] ∧ (∀ t ∈ w, t.kind ≠ .eof) ∧ s.Passes w s'

theorem ParseState.Placed.ne_eof_of_mem {s : ParseState} (hs : s.Placed) {t : Token}
    (ht : t ∈ s.ahead) : t.kind ≠ .eof := by
  by_cases heof : s.current.kind = .eof
  · rw [ahead_eq_nil.mpr heof] at ht
    cases ht
  · rw [ahead_of_ne_eof heof] at ht
    obtain rfl | ht := List.mem_cons.mp ht
    · exact heof
    · exact (hs.upcoming t ht).ne_eof

theorem ParseState.Passes.ne_eof {s s' : ParseState} {w : List Token} (h : s.Passes w s')
    (hs : s.Placed) : ∀ t ∈ w, t.kind ≠ .eof := by
  intro t ht
  exact hs.ne_eof_of_mem (h.ahead ▸ List.mem_append_left _ ht)

section Passing

variable {β γ : Type} {m : Parse β} {f : β → Parse γ}

theorem Steady.pure {b : β} : Steady (Pure.pure b) := by
  intro s c s' hs h
  cases h
  exact ⟨[], .refl hs⟩

theorem Steady.bind (hm : Steady m) (hf : ∀ b, Steady (f b)) : Steady (m >>= f) := by
  intro s c s' hs h
  obtain ⟨b, s₁, hb, h⟩ := Parse.ok_of_bind h
  obtain ⟨v, hv⟩ := hm hs hb
  obtain ⟨w, hw⟩ := hf b hv.placed h
  exact ⟨v ++ w, hv.trans hw⟩

theorem Passing.steady (h : Passing m) : Steady m := by
  intro s b s' hs hb
  obtain ⟨w, -, -, hw⟩ := h hs hb
  exact ⟨w, hw⟩

theorem Passing.bind (hm : Passing m) (hf : ∀ b, Steady (f b)) : Passing (m >>= f) := by
  intro s c s' hs h
  obtain ⟨b, s₁, hb, h⟩ := Parse.ok_of_bind h
  obtain ⟨v, hne, hv, hpass⟩ := hm hs hb
  obtain ⟨w, hw⟩ := hf b hpass.placed h
  refine ⟨v ++ w, by simp [hne], ?_, hpass.trans hw⟩
  exact (hpass.trans hw).ne_eof hs

/-- What finds a phrase that is not empty passes tokens. -/
theorem Passing.of_finds {elseRequired : Bool} {p : Phrase} {view : β → p.Tree Unit}
    (h : Finds m fun c w b r => Derives elseRequired p c w (view b) r)
    (hp : p.startsLikeExpr = true) : Passing m := by
  intro s b s' hs hb
  obtain ⟨w, hw, hderives⟩ := h hs hb
  have hne : words w ≠ [] := by
    intro hnil
    exact hderives.ne_nil hp (List.map_eq_nil_iff.mp hnil)
  exact ⟨words w, hne, hw.ne_eof hs, hw⟩

/-- A step that passes tokens after another one that may pass some. -/
theorem Passing.after (hm : Steady m) (hf : ∀ b, Passing (f b)) : Passing (m >>= f) := by
  intro s c s' hs h
  obtain ⟨b, s₁, hb, h⟩ := Parse.ok_of_bind h
  obtain ⟨v, hv⟩ := hm hs hb
  obtain ⟨w, hne, -, hw⟩ := hf b hv.placed h
  exact ⟨v ++ w, by simp [hne], (hv.trans hw).ne_eof hs, hv.trans hw⟩

theorem Passing.ite {p : Prop} [Decidable p] {m' : Parse β} (h : Passing m) (h' : Passing m') :
    Passing (if p then m else m') := by
  split
  · exact h
  · exact h'

end Passing

/-! ## Loops -/

/-- A round of a loop ends it, whatever bound is left, or passes tokens and hands on to the next
round. -/
inductive Round {α β : Type} (loop : Nat → α → Parse β) (a : α) (s : ParseState) : Prop
  | last (r : EStateM.Result Failure ParseState β) (result : ∀ bound, loop (bound + 1) a s = r)
  | next {s₁ : ParseState} {w : List Token} (a' : α) (collect : β → β) (some : w ≠ [])
    (passes : s.Passes w s₁)
    (result : ∀ bound, loop (bound + 1) a s = (collect <$> loop bound a') s₁)

/-- Every round of a loop passes tokens or ends it. -/
def Rounds {α β : Type} (loop : Nat → α → Parse β) : Prop :=
  ∀ (a : α) (s : ParseState), s.Placed → Round loop a s

namespace Parse

variable {down : Descent} {s : ParseState} {β γ : Type}

theorem passing_expect {kind : TokenKind} (hkind : kind ≠ .eof) : Passing (expect kind) := by
  intro s t s' hs h
  obtain ⟨-, -, hpass⟩ := passes_of_expect hs hkind h
  exact ⟨[t], by simp, hpass.ne_eof hs, hpass⟩

theorem passing_statement (hdown : down.Sound) (close : TokenKind) :
    Passing (statement down close) := by
  intro s x s' hs h
  obtain ⟨u, v, hpass, hcontent, -⟩ := finds_statement hdown close hs h
  have hne : words u ≠ [] := fun hnil => hcontent.ne_nil rfl (List.map_eq_nil_iff.mp hnil)
  exact ⟨words u ++ words v, by simp [hne], hpass.ne_eof hs, hpass⟩

theorem passing_call (hdown : down.Sound) (callee : Expr Span) : Passing (call down callee) := by
  refine (passing_expect (by decide)).bind fun _ => Steady.bind ?_ fun _ => .pure
  intro s list s' hs h
  obtain ⟨w, hw, -⟩ := finds_delimited .expr (finds_element hdown) down.bound (by decide) hs h
  exact ⟨words w, hw⟩

theorem passing_member (base : Expr Span) : Passing (member base) :=
  (passing_expect (by decide)).bind fun _ =>
    (passing_expect (by decide)).steady.bind fun _ => .pure

theorem passing_suffix (base : Expr Span) : Passing (suffix base) := by
  intro s e s' hs h
  obtain ⟨operator, t, hsymbol, hadvance, rfl⟩ := ok_of_suffix h
  obtain ⟨-, hpass⟩ := passes_of_advance hs (TokenKind.ne_of_some hsymbol rfl) hadvance
  exact ⟨[t], by simp, hpass.ne_eof hs, hpass⟩

theorem passing_afterPoint (base : Expr Span) : Passing (afterPoint base) := by
  refine .after (fun s t s' hs h => ?_) fun t => .ite (passing_member base) (passing_suffix base)
  exact ⟨[], (passes_of_peek hs h).1⟩

/-- A step that passes tokens, after which a loop goes on. -/
theorem round_of_step {α δ : Type} {loop : Nat → α → Parse β} {a : α} {m : Parse δ}
    {f : Nat → δ → Parse β} (hm : ∀ d s₁, m s = .ok d s₁ → ∃ w, w ≠ [] ∧ s.Passes w s₁)
    (next : δ → α) (collect : δ → β → β)
    (hf : ∀ bound d t, f bound d t = (collect d <$> loop bound (next d)) t)
    (hloop : ∀ bound, loop (bound + 1) a s = (m >>= f bound) s) : Round loop a s := by
  cases hresult : m s with
  | error failure s₁ =>
    exact .last _ fun bound => (hloop bound).trans (bind_of_error hresult)
  | ok d s₁ =>
    obtain ⟨w, hne, hpass⟩ := hm d s₁ hresult
    refine .next (next d) (collect d) hne hpass fun bound => ?_
    rw [hloop bound, bind_of_ok hresult, hf]

/-- A step that passes tokens, after which a loop goes on with what it has. -/
theorem round_of_pass {α : Type} {loop : Nat → α → Parse β} {a : α} {m : Parse α}
    (hm : ∀ d s₁, m s = .ok d s₁ → ∃ w, w ≠ [] ∧ s.Passes w s₁)
    (hloop : ∀ bound, loop (bound + 1) a s = (m >>= loop bound) s) : Round loop a s :=
  round_of_step hm id (fun _ => id) (fun _ _ _ => by rw [id_map, id]) hloop

theorem passes_of_passing {m : Parse β} (hm : Passing m) (hs : s.Placed) :
    ∀ b s₁, m s = .ok b s₁ → ∃ w, w ≠ [] ∧ s.Passes w s₁ := by
  intro b s₁ hb
  obtain ⟨w, hne, -, hpass⟩ := hm hs hb
  exact ⟨w, hne, hpass⟩

theorem passes_of_advance_some (hs : s.Placed) (hne : s.current.kind ≠ .eof) :
    ∀ t s₁, advance s = .ok t s₁ → ∃ w, w ≠ [] ∧ s.Passes w s₁ := by
  intro t s₁ ht
  exact ⟨[t], by simp, (passes_of_advance hs hne ht).2⟩

/-! ### The loops of the grammar -/

/-- The elements between delimiters, one of them and a comma in a round. -/
theorem rounds_elements {close : TokenKind} {element : Parse β} (helement : Passing element) :
    Rounds (elements close element) := by
  intro comma s hs
  by_cases hclose : s.current.kind = close
  · refine .last (.ok ([], comma) s) fun bound => ?_
    rw [elements, bind_standsAt, if_pos (decide_eq_true hclose)]
    rfl
  · have hopen : ¬decide (s.current.kind = close) = true := by simpa using hclose
    cases hresult : element s with
    | error failure s₁ =>
      refine .last (.error failure s₁) fun bound => ?_
      rw [elements, bind_standsAt, if_neg hopen, bind_of_error hresult]
    | ok first s₁ =>
      obtain ⟨v, hne, -, hv⟩ := helement hs hresult
      by_cases hcomma : s₁.current.kind = .comma
      · cases hadvance : advance s₁ with
        | error failure s₂ =>
          refine .last (.error failure s₂) fun bound => ?_
          rw [elements, bind_standsAt, if_neg hopen, bind_of_ok hresult, bind_standsAt,
            if_pos (decide_eq_true hcomma), bind_of_error hadvance]
        | ok t s₂ =>
          have hpass := (passes_of_advance hv.placed (hcomma ▸ by decide) hadvance).2
          refine .next true (fun rest => (first :: rest.1, rest.2)) (by simp [hne])
            (hv.trans hpass) fun bound => ?_
          rw [elements, bind_standsAt, if_neg hopen, bind_of_ok hresult, bind_standsAt,
            if_pos (decide_eq_true hcomma), bind_of_ok hadvance]
          exact congrFun (bind_pure_comp _ _) s₂
      · refine .last (.ok ([first], false) s₁) fun bound => ?_
        rw [elements, bind_standsAt, if_neg hopen, bind_of_ok hresult, bind_standsAt,
          if_neg (by simpa using hcomma)]
        rfl

/-- The statements of a list, one of them or a semicolon in a round. -/
theorem rounds_statements (hdown : down.Sound) (close : TokenKind) :
    Rounds fun bound (_ : Unit) => statements down close bound := by
  intro _ s hs
  by_cases hsemicolon : s.current.kind = .semicolon
  · refine round_of_step (f := fun bound _ => statements down close bound)
      (passes_of_advance_some hs (hsemicolon ▸ by decide)) (fun _ => ()) (fun _ => id)
      (fun bound _ t => ?_) fun bound => ?_
    · rw [id_map]
    · rw [statements, bind_standsAt, if_pos (decide_eq_true hsemicolon)]
  · by_cases hclose : s.current.kind = close
    · refine .last (.ok [] s) fun bound => ?_
      rw [statements, bind_standsAt, if_neg (by simpa using hsemicolon), bind_standsAt,
        if_pos (decide_eq_true hclose)]
      rfl
    · by_cases heof : s.current.kind = .eof
      · refine .last (unexpected [close] s) fun bound => ?_
        rw [statements, bind_standsAt, if_neg (by simpa using hsemicolon), bind_standsAt,
          if_neg (by simpa using hclose), bind_standsAt, if_pos (decide_eq_true heof)]
      · refine round_of_step
          (f := fun bound first => do
            let rest ← statements down close bound
            return first :: rest)
          (passes_of_passing (passing_statement hdown close) hs) (fun _ => ())
          (fun first rest => first :: rest) (fun bound first t => ?_) fun bound => ?_
        · exact congrFun (bind_pure_comp _ _) t
        · rw [statements, bind_standsAt, if_neg (by simpa using hsemicolon), bind_standsAt,
            if_neg (by simpa using hclose), bind_standsAt, if_neg (by simpa using heof)]

/-- What follows an expression, a call, a member or a suffix in a round. -/
theorem rounds_suffixChain (hdown : down.Sound) : Rounds (suffixChain down) := by
  intro base s hs
  by_cases hbreak : s.atLineBreak = true
  · refine .last (.ok base s) fun bound => ?_
    rw [suffixChain, bind_atLineBreak, if_pos hbreak]
    rfl
  · cases hkind : s.current.kind
    case openParen =>
      refine round_of_pass (passes_of_passing (passing_call hdown base) hs) fun bound => ?_
      rw [suffixChain, bind_atLineBreak, if_neg hbreak, bind_currentKind, hkind]
    case dot =>
      refine round_of_pass (passes_of_passing (passing_afterPoint base) hs) fun bound => ?_
      rw [suffixChain, bind_atLineBreak, if_neg hbreak, bind_currentKind, hkind]
    case dollar | hash | question =>
      refine round_of_pass (passes_of_passing (passing_suffix base) hs) fun bound => ?_
      rw [suffixChain, bind_atLineBreak, if_neg hbreak, bind_currentKind, hkind]
    all_goals
      refine .last (.ok base s) fun bound => ?_
      rw [suffixChain, bind_atLineBreak, if_neg hbreak, bind_currentKind, hkind]
      rfl

/-- A binary operator passes at least itself. -/
theorem passes_of_binary (hdown : down.Sound) (left : Expr Span) (power : Power) (hs : s.Placed)
    (hne : s.current.kind ≠ .eof) :
    ∀ e s₁, binary down left power s = .ok e s₁ → ∃ w, w ≠ [] ∧ s.Passes w s₁ := by
  intro e s₂ h
  obtain ⟨t, s₁, operator, right, hadvance, -, hright, -⟩ := ok_of_binary h
  obtain ⟨-, hpass⟩ := passes_of_advance hs hne hadvance
  obtain ⟨w, hw⟩ := (Passing.of_finds (hdown.expr power) rfl).steady hpass.placed hright
  exact ⟨t :: w, by simp, hpass.cons hw⟩

/-- The operators after an expression, one of them with its operand in a round. -/
theorem rounds_operators (hdown : down.Sound) (power : Power) :
    Rounds (operators down power) := by
  intro left s hs
  by_cases hbreak : s.atLineBreak = true
  · refine .last (.ok left s) fun bound => ?_
    rw [operators, bind_atLineBreak, if_pos hbreak]
    rfl
  · cases hsymbol : BinaryOperator.ofKind? s.current.kind with
    | none =>
      refine .last (.ok left s) fun bound => ?_
      rw [operators, bind_atLineBreak, if_neg hbreak, bind_currentKind, hdown.rules]
      simp only [Rules.standard, hsymbol]
      rfl
    | some operator =>
      have hne : s.current.kind ≠ .eof := TokenKind.ne_of_some hsymbol rfl
      have hloop (bound : Nat) : operators down power (bound + 1) left s =
          (if operator.level ≤ power then pure left
          else binary down left operator.level >>= operators down power bound :
            Parse (Expr Span)) s := by
        rw [operators, bind_atLineBreak, if_neg hbreak, bind_currentKind, hdown.rules]
        simp only [Rules.standard, hsymbol, Option.map_some]
        rfl
      by_cases hlevel : operator.level ≤ power
      · exact .last _ fun bound => (hloop bound).trans (by rw [if_pos hlevel])
      · refine round_of_pass (passes_of_binary hdown left operator.level hs hne) fun bound => ?_
        rw [hloop, if_neg hlevel]

end Parse

/-! ## Levels -/

/-- Calls a level below, refused where `n` tokens or more are left. -/
def Descent.below (n : Nat) (down : Descent) : Descent where
  rules := down.rules
  elseRequired := down.elseRequired
  bound := down.bound
  expr power := fun s =>
    if s.ahead.length < n then down.expr power s else .error .exhausted s
  statementExpr valueRequired := fun s =>
    if s.ahead.length < n then down.statementExpr valueRequired s else .error .exhausted s

/-- Where fewer tokens are left no call is refused. -/
theorem Descent.Tandem.below {K : Comparison} {n k : Nat} {down down' : Descent}
    (h : down.Tandem K n down') (hk : n ≤ k) : (down.below k).Tandem K n down' where
  rules := h.rules
  rules' := h.rules'
  bound := h.bound
  bound' := h.bound'
  elseRequired := h.elseRequired
  expr := by
    intro power s s' hs hn
    change SurfaceGrammar.Tandem K lacksExpr _ (if s.ahead.length < k then _ else _) _
    rw [if_pos (Nat.lt_of_lt_of_le hn hk)]
    exact h.expr hs hn
  statementExpr := by
    intro valueRequired s s' hs hn
    change SurfaceGrammar.Tandem K lacksExpr _ (if s.ahead.length < k then _ else _) _
    rw [if_pos (Nat.lt_of_lt_of_le hn hk)]
    exact h.statementExpr hs hn

/-- Over `levels` levels, a production goes down only where fewer tokens are left than at its
beginning, with `slack` more of them: it does not reach a bound, and the same comes out if all
other calls are refused. -/
def Descends {β : Type} (production : Descent → Parse β) (elseRequired : Bool)
    (levels slack : Nat) : Prop :=
  let down := descent .standard elseRequired levels
  ∀ s : ParseState, s.Placed → s.ahead.length + slack ≤ levels →
    production (down.below (s.ahead.length + slack)) s = production down s ∧
    ∀ s', production down s ≠ .error .exhausted s'

/-- A production descends, if it goes the same way over descents that go the same way. -/
theorem Descends.of_tandem {β : Type} (production : Descent → Parse β)
    {lacks : Position → β → Prop} {slack : Nat}
    (h : ∀ {down down' : Descent} {s : ParseState},
      down.Tandem .same (s.ahead.length + slack) down' → s.Placed →
      ∃ n, Tandem .same lacks n (production down s) (production down' s))
    (elseRequired : Bool) (levels : Nat) : Descends production elseRequired levels slack := by
  intro s hs hlevels
  have hsame := tandem_descent_same .same elseRequired hlevels hlevels
  obtain ⟨n, hbelow⟩ := h (hsame.below (Nat.le_refl _)) hs
  obtain ⟨n', hrefl⟩ := h hsame hs
  exact ⟨hbelow.eq.symm, hrefl.ne_exhausted⟩

section Descends

open Parse

variable (elseRequired : Bool) (levels : Nat)

theorem descends_expr (power : Power) :
    Descends (fun down => expr down power) elseRequired levels 0 :=
  .of_tandem (fun down => expr down power)
    (fun hdown hs => ⟨_, tandem_expr hdown power (.refl hs) (Nat.le_refl _)⟩) _ _

theorem descends_statementExpr (valueRequired : Bool) :
    Descends (fun down => statementExpr down valueRequired) elseRequired levels 0 :=
  .of_tandem (fun down => statementExpr down valueRequired)
    (fun hdown hs => ⟨_, tandem_statementExpr hdown valueRequired (.refl hs)
    (Nat.le_refl _)⟩) _ _

/-- A statement ranks above its expression, which may begin with the same token. -/
theorem descends_statement (close : TokenKind) :
    Descends (fun down => statement down close) elseRequired levels 1 :=
  .of_tandem (fun down => statement down close)
    (fun hdown hs => ⟨_, tandem_statement hdown close (.refl hs)
    (Nat.lt_succ_self _)⟩) _ _

theorem descends_statements (close : TokenKind) :
    Descends (fun down => statements down close down.bound) elseRequired levels 1 :=
  .of_tandem (fun down => statements down close down.bound)
    (fun hdown hs => ⟨_, tandem_statements hdown close _ _ (.refl hs)
    (Nat.lt_succ_self _) hdown.bound hdown.bound'⟩) _ _

end Descends

/-! ## The end of the tokens -/

/-- The parse of a stream of tokens, with the record of it. -/
def parseStream (stream : TokenStream) (settings : Settings) :
    Except Failure Module × Array Event :=
  match ParseState.ofStream stream settings.file with
  | .error error => (.error (.error error), #[])
  | .ok state =>
    match Parse.bounded .standard settings (Parse.wholeSource settings.file) state with
    | .ok whole state => (.ok whole, state.events)
    | .error failure state => (.error failure, state.events)

theorem parseRecorded_eq (source : String) (settings : Settings) :
    parseRecorded source settings =
      parseStream (TokenStream.ofSource source settings.file) settings := rfl

/-- What stands behind the token for the end has no part in a parse. -/
theorem parseStream_longer {ts : List Token} {stop : Token} (settings : Settings)
    (hproper : TokenStream.Proper ⟨ts, .ok stop⟩) (more : List Token)
    (ending : Except Error Token) :
    parseStream ⟨ts ++ stop :: more, ending⟩ settings = parseStream ⟨ts, .ok stop⟩ settings := by
  have hstart : ∃ s s', ParseState.ofStream ⟨ts, .ok stop⟩ settings.file = .ok s ∧
      ParseState.ofStream ⟨ts ++ stop :: more, ending⟩ settings.file = .ok s' ∧
      s.Alike ⟨False, True⟩ s' ∧ s.ahead.length < s'.levels := by
    cases ts with
    | nil =>
      have heof := hproper.ending stop rfl
      refine ⟨_, _, rfl, rfl, ⟨⟨fun _ => ⟨rfl, rfl⟩, hproper.ending, nofun, ?_⟩, rfl,
        .inr ⟨trivial, heof⟩, rfl, rfl, rfl, rfl, rfl⟩, ?_⟩
      · exact fun hne => absurd heof hne
      · simp [ParseState.ahead, heof, ParseState.levels]
    | cons t ts =>
      have ht := hproper.tokens t List.mem_cons_self
      refine ⟨_, _, rfl, rfl, ⟨⟨fun heof => absurd heof ht.ne_eof, hproper.ending, ?_,
        fun _ => ht⟩, rfl, .inl (.longer trivial ts more stop ending), rfl, rfl, rfl, rfl, rfl⟩, ?_⟩
      · exact fun u hu => hproper.tokens u (List.mem_cons_of_mem t hu)
      · have hmore : (ts.append (stop :: more)).length = ts.length + (more.length + 1) :=
          List.length_append
        simp only [ParseState.ahead, if_neg ht.ne_eof, ParseState.levels, List.length_cons, hmore]
        omega
  obtain ⟨s, s', hs, hs', halike, hlevels⟩ := hstart
  unfold parseStream
  rw [hs, hs']
  dsimp only [Parse.bounded]
  have hwhole := tandem_wholeSource settings.file
    (tandem_descent_same _ settings.elseRequired (n := s.ahead.length + 1) s.length_ahead_lt_levels
      hlevels) halike (Nat.lt_succ_self _)
  generalize Parse.wholeSource settings.file (descent .standard settings.elseRequired s.levels) s
    = r at hwhole
  generalize Parse.wholeSource settings.file (descent .standard settings.elseRequired s'.levels) s'
    = r' at hwhole
  cases hwhole with
  | ok alike _ => simp only [alike.events]
  | error alike => simp only [alike.events]
  | lacking strict _ => exact strict.elim

/-! ## Whole sources -/

/-- A parse ends and makes progress. It never reaches the bound on levels, and any number of levels
that is greater than that of the tokens gives the same. Every success of an expression, of one in
the place of a statement and of a statement passes tokens, but not the one for the end, and so does
every round of a loop that is not its last. A level is gone down only where fewer tokens are left
than at the beginning of an expression, or not more than at that of a statement. And what stands
behind the token for the end is never read. -/
theorem parse_progress (source : String) (settings : Settings) :
    parse source settings ≠ .error .exhausted ∧
    (∀ s levels, ParseState.start source settings = .ok s →
      (TokenStream.ofSource source settings.file).tokens.length < levels →
      Parse.wholeSource settings.file (descent .standard settings.elseRequired levels) s =
        Parse.wholeSource settings.file (descent .standard settings.elseRequired s.levels) s) ∧
    (∀ ts stop, TokenStream.ofSource source settings.file = ⟨ts, .ok stop⟩ → ∀ more ending,
      parseStream ⟨ts ++ stop :: more, ending⟩ settings = parseRecorded source settings) ∧
    ∀ levels, let down := descent .standard settings.elseRequired levels
      ((∀ kind rule, Rules.standardPrimary? kind = some rule →
          Passing (Parse.primary down rule)) ∧
        (∀ power, Passing (Parse.expr down power)) ∧
        (∀ valueRequired, Passing (Parse.statementExpr down valueRequired)) ∧
        ∀ close, Passing (Parse.statement down close)) ∧
      ((∀ close, Rounds fun bound (_ : Unit) => Parse.statements down close bound) ∧
        (∀ close, Rounds (Parse.elements close (down.expr .default)) ∧
          Rounds (Parse.elements close (Parse.entry down)) ∧
          Rounds (Parse.elements close (Parse.field down)) ∧
          Rounds (Parse.elements close (Parse.parameter down))) ∧
        Rounds (Parse.suffixChain down) ∧
        ∀ power, Rounds (Parse.operators down power)) ∧
      ((∀ power, Descends (fun down => Parse.expr down power) settings.elseRequired levels 0) ∧
        (∀ valueRequired, Descends (fun down => Parse.statementExpr down valueRequired)
          settings.elseRequired levels 0) ∧
        ∀ close, Descends (fun down => Parse.statement down close) settings.elseRequired levels 1 ∧
          Descends (fun down => Parse.statements down close down.bound)
            settings.elseRequired levels 1) := by
  refine ⟨fun h => ?_, fun s levels hs hlevels => ?_, fun ts stop hstream more ending => ?_,
    fun levels => ?_⟩
  · obtain ⟨e, he⟩ := exists_error_of_parse h
    cases he
  · obtain ⟨hplaced, -, hahead, -⟩ := ParseState.of_start hs
    exact wholeSource_of_levels settings.file settings.elseRequired hplaced (hahead ▸ hlevels)
  · have hproper := TokenStream.proper_ofScanner settings.file (Scanner.ofSource source)
    rw [parseRecorded_eq, hstream]
    change (TokenStream.ofSource source settings.file).Proper at hproper
    exact parseStream_longer settings (hstream ▸ hproper) more ending
  · have hsound := sound_descent settings.elseRequired levels
    refine ⟨⟨fun kind rule hrule => ?_, fun power => ?_, fun valueRequired => ?_, fun close => ?_⟩,
      ⟨fun close => ?_, fun close => ⟨?_, ?_, ?_, ?_⟩, ?_, fun power => ?_⟩,
      descends_expr _ levels, descends_statementExpr _ levels,
      fun close => ⟨descends_statement _ levels close, descends_statements _ levels close⟩⟩
    · exact .of_finds (Parse.finds_primary hsound hrule) rfl
    · exact .of_finds (Parse.finds_expr hsound power) rfl
    · exact .of_finds (Parse.finds_statementExpr hsound valueRequired) rfl
    · exact Parse.passing_statement hsound close
    · exact Parse.rounds_statements hsound close
    · exact Parse.rounds_elements (.of_finds (Parse.finds_element hsound) rfl)
    · exact Parse.rounds_elements (.of_finds (Parse.finds_entry hsound) rfl)
    · exact Parse.rounds_elements (.of_finds (Parse.finds_field hsound) rfl)
    · exact Parse.rounds_elements (.of_finds (Parse.finds_parameter hsound) rfl)
    · exact Parse.rounds_suffixChain hsound
    · exact Parse.rounds_operators hsound power

end SurfaceGrammar

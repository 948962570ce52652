import SurfaceGrammar.Proofs.Grammar.Composition
import SurfaceGrammar.Proofs.Parse.Runs

/-!
# The context of a parse

A production that succeeds leaves the context as it found it, and a block does so for the depth of
open delimiters even if it fails. So during the parse of a source no statement begins between
grouping delimiters or in a return type, and no group is left while none is open: a watch at these
places has nothing to do, and a parse with a watch is the parse without.

* `Descent.Restoring`: the productions leave the context as they found it.
* `Parse.groupDepth_after_blockBody`: a block restores the depth of open delimiters.
* `Watch.statements_eq`, `Watch.delimited_eq`: the lists with a watch, where they may stand.
* `Watch.descent_eq`: the productions with a watch are those without.
* `context_of_parse`: the context in the parse of a source.
-/

namespace SurfaceGrammar

open Parse

/-! ## Productions leave the context as they found it -/

/-- The productions with the calls of a level below leave the context as they found it. -/
structure Descent.Restoring (down : Descent) : Prop where
  expr : ∀ power, (Parse.expr down power).Restores
  statementExpr : ∀ valueRequired, (Parse.statementExpr down valueRequired).Restores
  statement : ∀ close, (Parse.statement down close).Restores
  statements : ∀ close bound, (Parse.statements down close bound).Restores
  blockBody : (Parse.blockBody down).Restores
  /-- The elements between delimiters are expressions, entries, fields or parameters. -/
  delimited : ∀ bound close, (Parse.delimited bound close (down.expr .default)).Restores ∧
    (Parse.delimited bound close (entry down)).Restores ∧
    (Parse.delimited bound close (field down)).Restores ∧
    (Parse.delimited bound close (parameter down)).Restores
  primary : ∀ rule, (Parse.primary down rule).Restores
  following : ∀ rule left power, (Parse.following down rule left power).Restores

theorem Descent.restoring (down : Descent) [down.Obeys Restorative] : down.Restoring where
  expr _ := Parse.restores
  statementExpr _ := Parse.restores
  statement _ := Parse.restores
  statements _ _ := Parse.restores
  blockBody := Parse.restores
  delimited _ _ := ⟨Parse.restores, Parse.restores, Parse.restores, Parse.restores⟩
  primary _ := Parse.restores
  following _ _ _ := Parse.restores

/-! ## Blocks that fail -/

/-- Passing a token does not change the depth of open delimiters, whether it succeeds or fails. -/
theorem Parse.keeps_groupDepth_expect (kind : TokenKind) (depth : Nat) :
    (expect kind).Keeps fun s => s.groupDepth = depth := by
  unfold expect expectOr
  refine Keeps.bind (fun _ hs => hs) fun current => ?_
  split
  · intro s hs
    unfold after advance
    cases s.upcoming.read <;> exact hs
  · exact fun _ hs => hs

/-- The depth of open delimiters behind a block is the one before it, even if a statement fails. -/
theorem Parse.groupDepth_after_blockBody (down : Descent) (s : ParseState) :
    ((blockBody down).after s).groupDepth = s.groupDepth := by
  have hinner : (do
      let depth ← enterBlock
      let body ← andFinally (statements down .closeCurly down.bound) (exitBlock depth)
      let _ ← expect .closeCurly
      record (.blockBody body.length)
      return body).Keeps fun s' => s'.groupDepth = s.groupDepth := by
    intro s₁ hs₁
    rw [after, bind_enterBlock, hs₁, ← after]
    obtain hafter | ⟨body, hafter⟩ := after_bind
      (andFinally (statements down .closeCurly down.bound) (exitBlock s.groupDepth))
      (fun body => do
        let _ ← expect .closeCurly
        record (.blockBody body.length)
        return body) { s₁ with groupDepth := 0 }
    · rw [hafter, after_exitBlock]
    · rw [hafter]
      have hend : (do
          let _ ← expect .closeCurly
          record (.blockBody body.length)
          return body).Keeps fun s' => s'.groupDepth = s.groupDepth :=
        (keeps_groupDepth_expect .closeCurly s.groupDepth).bind fun _ _ hs => hs
      exact hend _ (by rw [after_exitBlock])
  exact ((keeps_groupDepth_expect .openCurly s.groupDepth).bind fun _ => hinner) s rfl

/-! ## A watch has nothing to do -/

/-- A word opens a block only outside of a return type. -/
theorem Parse.inReturnType_of_opensCurly {s s' : ParseState} (h : opensCurly s = .ok true s') :
    s'.inReturnType = false := by
  rw [(sameContext h).inReturnType]
  obtain ⟨-, hfalse, -⟩ | ⟨htype, -⟩ := ok_of_opensCurly h
  · cases hfalse
  · exact htype

/-- The calls a level below, in a parse without a watch. -/
def Descent.unwatched {watch : Watch} (down : Descent watch) : Descent :=
  { down with }

namespace Watch

variable {watch : Watch} {down : Descent watch} {s : ParseState} {β : Type}

/-- A statement begins where it may. -/
theorem atStatement_eq (hdepth : s.groupDepth = 0) (htype : s.inReturnType = false) :
    watch.atStatement s = idle.atStatement s := by
  unfold atStatement
  rw [bind_get, bind_get, if_pos ⟨hdepth, htype⟩, if_pos ⟨hdepth, htype⟩]

/-- Delimiters are left where some are open. -/
theorem atExit_eq (hdepth : s.groupDepth ≠ 0) : watch.atExit s = idle.atExit s := by
  unfold atExit
  rw [bind_get, bind_get, if_neg hdepth, if_neg hdepth]

/-- Behind the elements the delimiters are still open. -/
theorem delimited_eq (watch : Watch) (bound : Nat) (close : TokenKind) (element : Parse β)
    [Obeys Restorative element] :
    watchedDelimited watch bound close element = Parse.delimited bound close element := by
  funext s
  unfold Parse.delimited watchedDelimited
  rw [bind_enterGroup, bind_setInReturnType, bind_enterGroup, bind_setInReturnType]
  refine bind_congr rfl fun (list, comma) s₁ hlist => bind_congr ?_ fun _ _ _ => rfl
  have hdepth := (sameContext hlist).groupDepth
  exact atExit_eq (by rw [hdepth]; exact Nat.succ_ne_zero _)

theorem statement_eq (hdepth : s.groupDepth = 0) (htype : s.inReturnType = false)
    (close : TokenKind) :
    Parse.statement down close s = Parse.statement down.unwatched close s :=
  bind_congr (atStatement_eq hdepth htype) fun _ _ _ => rfl

variable [down.unwatched.Obeys Restorative]

/-- Behind each statement the context is the one before it. The induction is on the bound of the
loop. -/
theorem statements_eq (hdepth : s.groupDepth = 0) (htype : s.inReturnType = false)
    (close : TokenKind) (bound : Nat) :
    Parse.statements down close bound s = Parse.statements down.unwatched close bound s := by
  induction bound generalizing s with
  | zero => rfl
  | succ bound ih =>
    have hafter {γ : Type} {m : Parse γ} [Obeys Restorative m] {b : γ} {s₁ : ParseState}
        (hm : m s = .ok b s₁) :
        Parse.statements down close bound s₁ =
          Parse.statements down.unwatched close bound s₁ := by
      have hsame := sameContext hm
      exact ih (hsame.groupDepth.trans hdepth) (hsame.inReturnType.trans htype)
    unfold Parse.statements
    rw [bind_standsAt, bind_standsAt]
    split
    · exact bind_congr rfl fun _ _ hadvance => hafter hadvance
    · rw [bind_standsAt, bind_standsAt]
      split
      · rfl
      · rw [bind_standsAt, bind_standsAt]
        split
        · rfl
        · exact bind_congr (statement_eq hdepth htype close) fun _ _ hfirst =>
            bind_congr (hafter hfirst) fun _ _ _ => rfl

/-- A block opens a context of its own but for the return type. -/
theorem blockBody_eq (htype : s.inReturnType = false) :
    Parse.blockBody down s = Parse.blockBody down.unwatched s := by
  unfold Parse.blockBody
  refine bind_congr rfl fun _ s₁ hopen => ?_
  rw [bind_enterBlock, bind_enterBlock]
  refine bind_congr (andFinally_congr ?_) fun _ _ _ => rfl
  have hdepth : ({ s₁ with groupDepth := 0 } : ParseState).groupDepth = 0 := rfl
  exact statements_eq hdepth ((sameContext hopen).inReturnType.trans htype) .closeCurly down.bound

/-! ### Composite expressions -/

/-- Expressions between delimiters. -/
theorem exprs_eq (close : TokenKind) :
    watchedDelimited watch down.bound close (down.expr .default) =
      Parse.delimited down.unwatched.bound close (down.unwatched.expr .default) :=
  delimited_eq watch down.bound close (down.unwatched.expr .default)

theorem tuple_eq : Parse.tuple down = Parse.tuple down.unwatched := by
  unfold Parse.tuple
  rw [exprs_eq]

theorem array_eq : Parse.array down = Parse.array down.unwatched := by
  unfold Parse.array
  rw [exprs_eq]

theorem set_eq : Parse.set down = Parse.set down.unwatched := by
  unfold Parse.set
  rw [exprs_eq]

theorem mapping_eq : Parse.mapping down = Parse.mapping down.unwatched := by
  have hentries (s : ParseState) :=
    congrFun (delimited_eq watch down.bound .closeCurly (entry down.unwatched)) s
  funext s
  unfold Parse.mapping
  exact bind_congr rfl fun _ _ _ => bind_congr rfl fun _ s₁ _ =>
    bind_congr (hentries s₁) fun _ _ _ => rfl

theorem object_eq : Parse.object down = Parse.object down.unwatched := by
  have hfields (s : ParseState) :=
    congrFun (delimited_eq watch down.bound .closeCurly (field down.unwatched)) s
  funext s
  unfold Parse.object
  exact bind_congr rfl fun _ s₁ _ => bind_congr (hfields s₁) fun _ _ _ => rfl

theorem functionBody_eq (htype : s.inReturnType = false) (typed : Bool) :
    Parse.functionBody down typed s = Parse.functionBody down.unwatched typed s := by
  unfold Parse.functionBody
  rw [bind_currentKind, bind_currentKind]
  cases s.current.kind
  case openCurly => exact map_congr (blockBody_eq htype)
  all_goals rfl

/-- The body of a function stands behind its return type. -/
theorem function_eq : Parse.function down = Parse.function down.unwatched := by
  funext s
  have hparameters (s : ParseState) :=
    congrFun (delimited_eq watch down.bound .closeParen (parameter down.unwatched)) s
  unfold Parse.function
  refine bind_congr rfl fun _ _ _ => bind_congr rfl fun _ _ _ => bind_congr rfl fun _ _ _ =>
    bind_congr rfl fun _ _ _ => bind_congr rfl fun _ s₁ _ => bind_congr (hparameters s₁)
      fun _ s₂ _ => ?_
  rw [bind_setInReturnType, bind_setInReturnType]
  refine bind_congr rfl fun _ s₃ _ => ?_
  rw [bind_setInReturnType, bind_setInReturnType]
  exact bind_congr (functionBody_eq rfl _) fun _ _ _ => rfl

theorem block_eq (htype : s.inReturnType = false) (kind : BlockKind) :
    Parse.block down kind s = Parse.block down.unwatched kind s := by
  unfold Parse.block
  refine bind_congr rfl fun _ s₁ hrecord => bind_congr rfl fun _ s₂ hword => ?_
  have hsame := (sameContext hrecord).trans (sameContext hword)
  exact bind_congr (blockBody_eq (hsame.inReturnType.trans htype)) fun _ _ _ => rfl

/-- A word opens a block only outside of a return type. -/
theorem label_eq : Parse.label down = Parse.label down.unwatched := by
  funext s
  have hblock (kind : BlockKind) :
      (do if ← opensCurly then Parse.block down kind else plainLabel : Parse (Expr Span)) s =
        (do if ← opensCurly then Parse.block down.unwatched kind else plainLabel) s := by
    refine bind_congr rfl fun opens s₁ hopens => ?_
    split
    · next hopen => exact block_eq (inReturnType_of_opensCurly (hopen ▸ hopens)) kind
    · rfl
  unfold Parse.label
  rw [function_eq, set_eq, mapping_eq, bind_current, bind_current]
  cases s.current.keyword? with
  | none => rfl
  | some keyword =>
    cases keyword
    case «do» => exact hblock .do
    case scope => exact hblock .scope
    all_goals rfl

/-! ### Expressions -/

theorem call_eq (callee : Expr Span) :
    Parse.call down callee = Parse.call down.unwatched callee := by
  unfold Parse.call
  rw [exprs_eq]

/-- The induction is on the bound of the loop. -/
theorem suffixChain_eq (bound : Nat) (base : Expr Span) :
    Parse.suffixChain down bound base = Parse.suffixChain down.unwatched bound base := by
  induction bound generalizing base with
  | zero => rfl
  | succ bound ih =>
    funext s
    unfold Parse.suffixChain
    rw [bind_atLineBreak, bind_atLineBreak]
    split
    · rfl
    · rw [bind_currentKind, bind_currentKind]
      cases s.current.kind
      case openParen =>
        exact bind_congr (congrFun (call_eq base) s) fun base s₁ _ => congrFun (ih base) s₁
      case dot | dollar | hash | question =>
        exact bind_congr rfl fun base s₁ _ => congrFun (ih base) s₁
      all_goals rfl

theorem following_eq (rule : InfixRule) (left : Expr Span) (power : Power) :
    Parse.following down rule left power = Parse.following down.unwatched rule left power := by
  cases rule with
  | call => exact call_eq left
  | suffixChain => exact suffixChain_eq down.bound left
  | binary | member | suffix => rfl

/-- The induction is on the bound of the loop. -/
theorem operators_eq (power : Power) (bound : Nat) (left : Expr Span) :
    Parse.operators down power bound left = Parse.operators down.unwatched power bound left := by
  induction bound generalizing left with
  | zero => rfl
  | succ bound ih =>
    funext s
    unfold Parse.operators
    rw [bind_atLineBreak, bind_atLineBreak]
    split
    · rfl
    · rw [bind_currentKind, bind_currentKind, show down.unwatched.rules = down.rules from rfl]
      cases down.rules.operator? s.current.kind with
      | none => rfl
      | some entry =>
        dsimp only
        split
        · rfl
        · exact bind_congr (congrFun (following_eq entry.2 left entry.1) s)
            fun left s₁ _ => congrFun (ih left) s₁

/-- No rule of the language is one for a block that begins without a look at the context. -/
theorem primary_eq {kind : TokenKind} {rule : PrimaryRule}
    (hrule : Rules.standardPrimary? kind = some rule) :
    Parse.primary down rule = Parse.primary down.unwatched rule := by
  cases kind <;> cases hrule
  case identifier => exact label_eq
  case openParen => exact tuple_eq
  case openBracket => exact array_eq
  case openCurly => exact object_eq
  all_goals rfl

theorem expr_eq (hrules : down.rules = .standard) (power : Power) :
    Parse.expr down power = Parse.expr down.unwatched power := by
  funext s
  have hunwatched : down.unwatched.rules = .standard := hrules
  unfold Parse.expr
  rw [bind_currentKind, bind_currentKind, bind_record, bind_record, hrules, hunwatched]
  cases hrule : Rules.standardPrimary? s.current.kind with
  | none => simp only [Rules.standard, hrule]
  | some rule =>
    simp only [Rules.standard, hrule, primary_eq hrule, suffixChain_eq, operators_eq]
    rfl

theorem statementExpr_eq (hrules : down.rules = .standard) (valueRequired : Bool) :
    Parse.statementExpr down valueRequired = Parse.statementExpr down.unwatched valueRequired := by
  unfold Parse.statementExpr
  rw [expr_eq hrules]
  rfl

omit [down.unwatched.Obeys Restorative] in
/-- The productions with a watch are those without, at every number of levels. -/
theorem descent_eq (watch : Watch) (elseRequired : Bool) (levels : Nat) :
    (descent .standard elseRequired levels watch).unwatched =
      descent .standard elseRequired levels := by
  induction levels with
  | zero => rfl
  | succ levels ih =>
    have hobeys : (descent .standard elseRequired levels watch).unwatched.Obeys Restorative := by
      rw [ih]
      infer_instance
    have hrules : (descent .standard elseRequired levels watch).rules = .standard := by
      cases levels <;> rfl
    have hexpr (power : Power) : Parse.expr (descent .standard elseRequired levels watch) power =
        Parse.expr (descent .standard elseRequired levels) power := by
      rw [expr_eq hrules, ih]
    have hstatement (valueRequired : Bool) :
        Parse.statementExpr (descent .standard elseRequired levels watch) valueRequired =
          Parse.statementExpr (descent .standard elseRequired levels) valueRequired := by
      rw [statementExpr_eq hrules, ih]
    simp only [descent, Descent.unwatched, hexpr, hstatement]

omit [down.unwatched.Obeys Restorative] in
/-- The parse of a source with a watch is the parse without, with the same records. -/
theorem parseRecorded_eq_of_watch (watch : Watch) (source : String) (settings : Settings) :
    parseRecorded source settings watch = parseRecorded source settings := by
  unfold parseRecorded
  cases hstart : ParseState.start source settings with
  | error e => rfl
  | ok s =>
    have houtside : s.groupDepth = 0 ∧ s.inReturnType = false := by
      simpa [ParseState.surroundings, Surroundings.outside] using (ParseState.of_start hstart).2.1
    have hsame := descent_eq watch settings.elseRequired s.levels
    have hobeys : (descent .standard settings.elseRequired s.levels watch).unwatched.Obeys
        Restorative := by
      rw [hsame]
      infer_instance
    have hwhole : Parse.wholeSource settings.file
          (descent .standard settings.elseRequired s.levels watch) s =
        Parse.wholeSource settings.file (descent .standard settings.elseRequired s.levels) s := by
      rw [← hsame]
      exact bind_congr (statements_eq houtside.1 houtside.2 .eof _) fun _ _ _ => rfl
    simp only [hwhole]

end Watch

/-! ## The context in a parse -/

/-- Every production that succeeds leaves the context as it found it, and a block restores the depth
of open delimiters whether it succeeds or fails. In the parse of a source no statement begins
between grouping delimiters or in a return type, and no group is left while none is open: whatever a
watch would do there, the parse with it is the parse without. -/
theorem context_of_parse :
    (∀ rules elseRequired levels, (descent rules elseRequired levels).Restoring) ∧
    (∀ rules elseRequired levels s,
      ((blockBody (descent rules elseRequired levels)).after s).groupDepth = s.groupDepth) ∧
    ∀ (watch : Watch) source settings,
      parseRecorded source settings watch = parseRecorded source settings :=
  ⟨fun _ _ _ => Descent.restoring _, fun _ _ _ => groupDepth_after_blockBody _,
    Watch.parseRecorded_eq_of_watch⟩

/-- A block in the body of a function that stands between delimiters, with a tuple over two lines: a
watch that would end the parse does not. -/
theorem context_of_parse_nested :
    ∃ m, parse "(fn f(a: [b]): set \x7b do \x7b (a,\nb) \x7d \x7d)" {} = .ok m ∧
      (parseRecorded "(fn f(a: [b]): set \x7b do \x7b (a,\nb) \x7d \x7d)" {}
        ⟨throw .exhausted, throw .exhausted⟩).1 = .ok m := by
  obtain ⟨m, hm⟩ : ∃ m, parse "(fn f(a: [b]): set \x7b do \x7b (a,\nb) \x7d \x7d)" {} = .ok m :=
    exists_of_isOk (by decide +kernel)
  obtain ⟨-, -, hwatch⟩ := context_of_parse
  exact ⟨m, hm, by rw [hwatch]; exact hm⟩

end SurfaceGrammar

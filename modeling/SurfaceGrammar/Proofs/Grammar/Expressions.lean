import SurfaceGrammar.Proofs.Grammar.Nesting
import SurfaceGrammar.Proofs.Grammar.Refusals

/-!
# Sources of one expression

A source that is read as one expression stands for the same expression at every place in a line
where a token follows that no expression takes in. It need not be read again there: both parses take
the same steps.

* `IsExpr`: the source is read as an expression, up to its end.
* `IsExpr.consumes`: the same tokens at another place.
* `ReadsAs`: the source is an expression, and a module with this expression as its only statement.
* `Refused`: the source is neither, and the error is always the same.
* `IsExpr.of_consumes`, `parse_of_consumes`, `ReadsAs.of_consumes`, `Refused.of_rejects`: from the
  tokens of a source to what is read of it.
-/

namespace SurfaceGrammar

open Lookahead

/-- The number of levels does not matter, as long as it is not less than that of the tokens. -/
theorem Parse.expr_of_levels {s : ParseState} (elseRequired : Bool) (hs : s.Placed) {levels : Nat}
    (hlevels : s.ahead.length ≤ levels) (power : Power) :
    Parse.expr (descent .standard elseRequired levels) power s =
      Parse.expr (descent .standard elseRequired s.levels) power s :=
  (Parse.tandem_expr (tandem_descent_same .same elseRequired hlevels
    (Nat.le_of_lt s.length_ahead_lt_levels)) power (.refl hs) (Nat.le_refl _)).eq.symm

/-- The source is read as one expression, up to its end. -/
def IsExpr (source : String) (settings : Settings) (e : Expr Span) : Prop :=
  ∃ s s', ParseState.start source settings = .ok s ∧
    Parse.bounded .standard settings (Parse.expr · .default) s = .ok e s' ∧ s'.current.kind = .eof

/-- The expression that a source is read as, up to its end. -/
def expr? (source : String) (settings : Settings) : Option (Expr Span) :=
  match ParseState.start source settings with
  | .error _ => none
  | .ok s =>
    match Parse.bounded .standard settings (Parse.expr · .default) s with
    | .error _ _ => none
    | .ok e s' => if s'.current.kind = .eof then some e else none

theorem expr?_eq_some_iff {source : String} {settings : Settings} {e : Expr Span} :
    expr? source settings = some e ↔ IsExpr source settings e := by
  unfold expr? IsExpr
  cases hs : ParseState.start source settings with
  | error _ => simp
  | ok s =>
    cases hrun : Parse.bounded .standard settings (Parse.expr · .default) s with
    | error _ _ => simp [hrun]
    | ok e' s' => simp [hrun, and_comm]

namespace IsExpr

variable {source : String} {settings : Settings} {e : Expr Span}

/-- All tokens of an expression can be read, and an expression begins with the first one. -/
theorem exists_ofSource (h : IsExpr source settings e) :
    ∃ ts stop, TokenStream.ofSource source settings.file = ⟨ts, .ok stop⟩ ∧
      kind ts ∈ expressionStart := by
  obtain ⟨s, s', hs, hrun, heof⟩ := h
  obtain ⟨hplaced, -, hahead, hending⟩ := ParseState.of_start hs
  obtain ⟨w, hpass, hderives⟩ :=
    Parse.finds_expr (sound_descent settings.elseRequired s.levels) .default hplaced hrun
  have hwords : s.ahead = words w := by
    rw [hpass.ahead, ParseState.ahead_eq_nil.mpr heof, List.append_nil]
  have hstart := hderives.kind_mem rfl
  rw [ParseState.ahead_eq_nil.mpr heof, List.append_nil, ← hwords, hahead] at hstart
  refine ⟨_, s'.current, ?_, hstart⟩
  rw [← (hpass.placed.atEnd heof).2, hpass.ending, hending]

/-- A source that is one expression is read as that expression at every place where it stands on
one line in front of a token that no expression takes in. Inside of how many delimiters it stands
does not matter, as there is no line break in it. In front of a colon no conditional and no function
may begin in it, as both go on there. -/
theorem consumes (h : IsExpr source settings e) {ts : List Token} {stop k : Token}
    (hstream : TokenStream.ofSource source settings.file = ⟨ts, .ok stop⟩)
    (hline : ∀ t ∈ ts, t.newlineBefore = false) (hends : k.kind ∈ TokenKind.enders)
    (hplain : k.kind = .colon → ∀ t ∈ ts, t.isKeyword .if = false ∧ t.isKeyword .fn = false)
    {c : Surroundings} (hc : c.returnType = false) (count : Nat) {levels : Nat}
    (hlevels : ts.length ≤ levels) (r : List Token) :
    Consumes (Parse.expr (descent .standard settings.elseRequired levels) .default) c
      (ts.map (Token.shift count)) (k :: r) (· = e.mapMark (Span.shift count)) := by
  intro u hu houtside hahead
  obtain ⟨s, s', hs, hrun, heof⟩ := h
  obtain ⟨hplaced, -, hsahead, -⟩ := ParseState.of_start hs
  rw [hstream] at hsahead
  obtain ⟨q, rfl, hbehind, hinline⟩ : ∃ q : Sequel, q.stop = k ∧
      q.behind = ⟨r, u.upcoming.ending⟩ ∧ q.inline = true :=
    ⟨⟨k, ⟨r, u.upcoming.ending⟩, hends, true⟩, rfl, rfl, rfl⟩
  have hadmits : ∀ t ∈ ts, q.Admits t :=
    fun t ht => ⟨fun _ => hline t ht, fun hcolon => hplain hcolon t ht⟩
  have htype : u.inReturnType = false := by rw [← hc, ← houtside]; rfl
  have hmeets : s.Meets (.later count (some q)) u :=
    ParseState.meets_of_moved false hs hstream hadmits
      (by rw [hahead, hbehind]; rfl) (by rw [hbehind]) (.inl hinline) htype
  have hsame := Parse.expr_of_levels settings.elseRequired hplaced
    (Nat.le_trans (Nat.le_of_eq (congrArg List.length hsahead)) hlevels) .default
  obtain ⟨e', t', hrun', he, ht'⟩ := (Parse.agree_expr
    (agrees_descent _ settings.elseRequired levels) .default hmeets).exists_ok (hsame.trans hrun)
  obtain ⟨hcurrent, hupcoming⟩ := ht'.toMeets.sequel rfl heof
  obtain ⟨w, hpass, -⟩ :=
    Parse.finds_expr (sound_descent settings.elseRequired levels) .default hu.toPlaced hrun'
  have hwords := hpass.ahead
  rw [hahead, ParseState.ahead_of_sequel hcurrent hupcoming, hbehind] at hwords
  rw [List.append_cancel_right hwords]
  exact ⟨e', t', hrun', Correspondence.expr_later he, hpass⟩

end IsExpr

/-! ## From tokens to sources -/

/-- The source is an expression, and a module with this expression as its only statement. -/
structure ReadsAs (source : String) (settings : Settings) (e : Expr Span) : Prop where
  expr : IsExpr source settings e
  statement : ∃ m, parse source settings = .ok m ∧ m.body = [.expression e]

/-- The source is refused with the error, as an expression and as a module. -/
structure Refused (source : String) (settings : Settings) (error : Error) : Prop where
  expr : ∃ s s', ParseState.start source settings = .ok s ∧
    Parse.bounded .standard settings (Parse.expr · .default) s = .error (.error error) s'
  statement : parse source settings = .error (.error error)

variable {source : String} {settings : Settings} {ts : List Token}

/-- If an expression is read from all the tokens of a source, the source is this expression. -/
theorem IsExpr.of_consumes {stop : Token} {e : Expr Span} {levels : Nat}
    (hstream : TokenStream.ofSource source settings.file = ⟨ts, .ok stop⟩)
    (hlevels : ts.length ≤ levels)
    (h : Consumes (Parse.expr (descent .standard settings.elseRequired levels) .default) .outside ts
      [] (· = e)) : IsExpr source settings e := by
  obtain ⟨s, hs, hready, houtside, hahead⟩ := ParseState.exists_start hstream
  have hts : s.ahead = ts ++ [] := by rw [hahead, List.append_nil]
  obtain ⟨_, s', hrun, rfl, hpass⟩ := h s (.of_ready hready []) houtside hts
  rw [Parse.expr_of_levels settings.elseRequired hready.toPlaced (hahead ▸ hlevels)] at hrun
  refine ⟨s, s', hs, hrun, ParseState.ahead_eq_nil.mp ?_⟩
  exact (List.append_cancel_left (hts.symm.trans hpass.ahead)).symm

/-- If an expression is read from the tokens of a source, the source is this expression. -/
theorem ReadsAs.of_consumes {stop : Token} {e : Expr Span}
    (hstream : TokenStream.ofSource source settings.file = ⟨ts, .ok stop⟩) (opens : Opens ts)
    (h : ∀ levels, ts.length ≤ levels → Consumes (Parse.expr
      (descent .standard settings.elseRequired (levels + 2)) .default) .outside ts [] (· = e)) :
    ReadsAs source settings e := by
  have hexpr := h ts.length (Nat.le_refl _)
  refine ⟨.of_consumes hstream (Nat.le_add_right _ _) hexpr, ?_⟩
  obtain ⟨m, hm, _, honly, rfl⟩ := parse_of_consumes hstream (by omega) <|
    Consumes.onlyStatement (by rwa [List.append_nil]) opens.ne_nil kind_nil (.inl rfl) hexpr
  exact ⟨m, hm, Stmt.eq_of_only? honly⟩

/-- If the tokens of a source are refused at one of them, the source is refused. -/
theorem Refused.of_rejects {t : Token} {r : List Token} {e : Error}
    (hstream : (TokenStream.ofSource source settings.file).tokens = ts ++ t :: r)
    (opens : Opens (ts ++ t :: r)) (hts : ts ≠ [])
    (h : ∀ levels, ts.length ≤ levels → Rejects (Parse.expr
      (descent .standard settings.elseRequired (levels + 2)) .default) .outside ts (t :: r) e) :
    Refused source settings e := by
  obtain ⟨s, hs, hready, houtside, hahead⟩ := ParseState.exists_start_of_token hstream
  have hexpr := h (ts ++ t :: r).length (by simp)
  constructor
  · obtain ⟨s', hrun⟩ := hexpr s hready houtside hahead
    rw [Parse.expr_of_levels settings.elseRequired hready.toPlaced (by rw [hahead]; omega)] at hrun
    exact ⟨s, s', hs, hrun⟩
  · obtain ⟨first, ts, rfl⟩ := List.exists_cons_of_ne_nil hts
    exact parse_of_rejects hstream (Nat.lt_add_of_pos_right (show 0 < 3 by decide)) <|
      .statements opens.start (opens.kind_ne (by decide)) <| .statement <|
        .content opens.noType (.statementExpr opens.noLabel opens.noConditional hexpr)

end SurfaceGrammar

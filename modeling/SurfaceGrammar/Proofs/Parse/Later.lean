import SurfaceGrammar.Proofs.Parse.Twins
import SurfaceGrammar.Proofs.Token.Shift

/-!
# The same tokens at later places

Two parses of the same tokens, of which those of the second one stand a number of bytes later. The
spans and the errors that come out are then later by the same number of bytes.

* `Correspondence.later`: tokens, positions and errors a number of bytes later.
* `Correspondence.statements_later`, `Correspondence.expr_later`: what belongs together is the same,
  but later.
* `Correspondence.streams_later`, `Correspondence.streams_before`: streams of such tokens, without
  and with something behind them.
* `Correspondence.read_onNewLine`: what is read if a line break stands before the later tokens.
-/

namespace SurfaceGrammar

namespace Correspondence

/-- Tokens, positions and errors belong together if those of the second parse are a number of bytes
later. -/
def later (count : Nat) (sequel : Option Sequel) : Correspondence Span where
  token t t' := (t'.kind = t.kind ∧ t'.value = t.value ∧ t'.span = t.span.shift count) ∧
    ∀ q, sequel = some q → q.Admits t
  place p p' := p' = p.shift count
  error e e' := e' = e.shift count
  old := Span.shift count
  new := id
  sequel
  unplaced h := ⟨h.1.1, h.1.2.1⟩
  start h := by rw [h.1.2.2]; rfl
  stop h := by rw [h.1.2.2]; rfl
  located _ h := by rw [h.1.2.2]; rfl
  span hp hq := by rw [hp, hq]; rfl
  join hx hy := by
    have hx' : _ = Span.shift count _ := hx
    have hy' : _ = Span.shift count _ := hy
    rw [id_eq] at hx' hy' ⊢
    rw [hx', hy']
    rfl
  admits h hq := h.2 _ hq

variable {count : Nat} {sequel : Option Sequel}

theorem statements_later {body body' : List (Stmt Span)}
    (h : (later count sequel).Alike (fun f => List.map (Stmt.mapMark f)) body body') :
    body' = body.map (Stmt.mapMark (Span.shift count)) := by
  have hsame : body'.map (Stmt.mapMark id) = body.map (Stmt.mapMark (Span.shift count)) := h
  rw [← hsame]
  exact (List.map_id'' Stmt.mapMark_id body').symm

theorem expr_later {e e' : Expr Span} (h : (later count sequel).Alike Expr.mapMark e e') :
    e' = e.mapMark (Span.shift count) := by
  have hsame : e'.mapMark id = e.mapMark (Span.shift count) := h
  rw [← hsame, Expr.mapMark_id]

theorem token_later {t : Token} (h : ∀ q, sequel = some q → q.Admits t) :
    (later count sequel).Same t (t.shift count) :=
  ⟨⟨⟨rfl, rfl, rfl⟩, h⟩, rfl⟩

theorem tokens_later {ts : List Token} (h : ∀ t ∈ ts, ∀ q, sequel = some q → q.Admits t) :
    List.Forall₂ (later count sequel).Same ts (ts.map (Token.shift count)) := by
  induction ts with
  | nil => exact .nil
  | cons t ts ih =>
    rw [List.forall_mem_cons] at h
    exact .cons (token_later h.1) (ih h.2)

/-- The tokens of a stream and the later ones of another stream that goes on behind them. -/
theorem streams_before (count : Nat) {ts : List Token} (stop : Token) {q : Sequel}
    (h : ∀ t ∈ ts, q.Admits t) : (later count (some q)).Streams ⟨ts, .ok stop⟩
      ⟨ts.map (Token.shift count) ++ q.stop :: q.behind.tokens, q.behind.ending⟩ := by
  refine .more rfl (tokens_later fun t ht p hp => ?_)
  cases hp
  exact h t ht

/-- A stream and the later one. -/
theorem streams_later (count : Nat) (stream : TokenStream) :
    (later count none).Streams stream (stream.shift count) := by
  obtain ⟨ts, ending⟩ := stream
  have hadmits (t : Token) (q : Sequel) (hq : none = some q) : q.Admits t := by cases hq
  have htokens : List.Forall₂ (later count none).Same ts (ts.map (Token.shift count)) :=
    tokens_later fun t _ => hadmits t
  cases ending with
  | ok stop => exact .same rfl htokens (.ok (token_later (hadmits stop)).1)
  | error e => exact .same rfl htokens (.error rfl)

/-- What is read from a stream and from the later one, if a line break stands before that. -/
theorem read_onNewLine (count : Nat) (stream : TokenStream) :
    (∃ t rest t' rest', stream.read = .ok (t, rest) ∧
      (stream.shift count).onNewLine.read = .ok (t', rest') ∧
      (later count none).Faces t rest t' rest') ∨
    ∃ e, stream.read = .error e ∧ (stream.shift count).onNewLine.read = .error (e.shift count) := by
  obtain ⟨ts, ending⟩ := stream
  have hadmits (t : Token) (q : Sequel) (hq : none = some q) : q.Admits t := by cases hq
  cases ts with
  | cons t ts =>
    exact .inl ⟨_, _, _, _, rfl, rfl,
      .token ⟨⟨rfl, rfl, rfl⟩, hadmits _⟩ (streams_later count ⟨ts, ending⟩) nofun⟩
  | nil =>
    cases ending with
    | ok stop =>
      exact .inl ⟨_, _, _, _, rfl, rfl,
        .token ⟨⟨rfl, rfl, rfl⟩, hadmits _⟩ (.same rfl .nil (.ok ⟨⟨rfl, rfl, rfl⟩, hadmits _⟩))
        nofun⟩
    | error e => exact .inr ⟨e, rfl, rfl⟩

/-- What is read from a source and from the same one at a later place, on the same line or on a new
one, with something behind it. -/
theorem exists_read_moved (count : Nat) {ts : List Token} {stop : Token}
    (hproper : TokenStream.Proper ⟨ts, .ok stop⟩) {q : Sequel} (h : ∀ t ∈ ts, q.Admits t)
    (lineBreak : Bool) :
    ∃ t rest t' rest', TokenStream.read ⟨ts, .ok stop⟩ = .ok (t, rest) ∧
      TokenStream.read ⟨(TokenStream.moved ⟨ts, .ok stop⟩ count lineBreak).tokens ++
        q.stop :: q.behind.tokens, q.behind.ending⟩ = .ok (t', rest') ∧
      (later count (some q)).Faces t rest t' rest' := by
  cases ts with
  | nil =>
    have htokens : (TokenStream.moved ⟨[], .ok stop⟩ count lineBreak).tokens = [] := by
      cases lineBreak <;> rfl
    rw [htokens]
    exact ⟨_, _, _, _, rfl, rfl, .stopped rfl (hproper.ending stop rfl)⟩
  | cons t ts =>
    obtain ⟨t', htokens, hlater⟩ : ∃ t',
        (TokenStream.moved ⟨t :: ts, .ok stop⟩ count lineBreak).tokens =
          t' :: ts.map (Token.shift count) ∧ (later count (some q)).token t t' := by
      have hadmits (p : Sequel) (hp : some q = some p) : p.Admits t := by
        cases hp
        exact h t List.mem_cons_self
      cases lineBreak <;> exact ⟨_, rfl, ⟨rfl, rfl, rfl⟩, hadmits⟩
    rw [htokens]
    have hne := (hproper.tokens t List.mem_cons_self).ne_eof
    have hrest := streams_before count stop fun u hu => h u (List.mem_cons_of_mem t hu)
    exact ⟨_, _, _, _, rfl, rfl, .token hlater hrest fun _ => hne⟩

end Correspondence

namespace ParseState

variable {q : Sequel} {s u : ParseState}

/-- At the first token of a source a parse begins like one that stands at the same source at a later
place, on the same line or on a new one, with something behind it. -/
theorem meets_of_moved {source : String} {settings : Settings} {ts : List Token} {stop : Token}
    {count : Nat} (lineBreak : Bool) (hs : ParseState.start source settings = .ok s)
    (hstream : TokenStream.ofSource source settings.file = ⟨ts, .ok stop⟩)
    (hadmits : ∀ t ∈ ts, q.Admits t)
    (hahead : u.ahead = (TokenStream.moved ⟨ts, .ok stop⟩ count lineBreak).tokens ++
      q.stop :: q.behind.tokens)
    (hending : u.upcoming.ending = q.behind.ending)
    (hdepth : q.inline = true ∨ u.groupDepth = 0) (htype : u.inReturnType = false) :
    s.Meets (.later count (some q)) u := by
  have hplaced := (ParseState.of_start hs).1
  obtain ⟨t, rest, hread, rfl⟩ := ParseState.start_eq_ok_iff.mp hs
  have hproper := TokenStream.proper_ofScanner settings.file (Scanner.ofSource source)
  change TokenStream.Proper (TokenStream.ofSource source settings.file) at hproper
  rw [hstream] at hproper hread
  obtain ⟨t, rest, t', rest', hread', hmoved, hfaces⟩ :=
    Correspondence.exists_read_moved count hproper hadmits lineBreak
  rw [hread] at hread'
  cases hread'
  have hne : u.current.kind ≠ .eof := by
    rw [ne_eq, ← ParseState.ahead_eq_nil, hahead]
    exact List.append_ne_nil_of_right_ne_nil _ (List.cons_ne_nil _ _)
  rw [← hahead, ← hending, ParseState.ahead_of_ne_eof hne] at hmoved
  cases hmoved
  exact ⟨hplaced, hfaces, hdepth.imp_left fun hinline => ⟨q, rfl, hinline⟩, htype⟩

/-- What lies ahead at a sequel. -/
theorem ahead_of_sequel (hcurrent : u.current = q.stop) (hupcoming : u.upcoming = q.behind) :
    u.ahead = q.stop :: q.behind.tokens := by
  have hne : u.current.kind ≠ .eof := by
    intro heof
    have hends := q.ends
    rw [← hcurrent, heof] at hends
    exact absurd hends (by decide)
  rw [ParseState.ahead_of_ne_eof hne, hcurrent, hupcoming]

end ParseState

end SurfaceGrammar

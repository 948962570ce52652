import Mathlib.Data.List.Forall2
import SurfaceGrammar.Proofs.Parse.Step
import SurfaceGrammar.Proofs.Tree.Marks

/-!
# Two parses side by side

Two sources whose tokens correspond one to one, with equal kinds, values and newline flags, are
parsed in the same way: no step looks at where a token stands, except to put the place into a span
or an error. The second source may go on where the first one ends, with a token that ends an
expression just as the end of a source does: a separator or a closing bracket. So as long as the
first parse goes on well the second one does the same. If no line break stands before a token, then
the second parse may also be inside delimiters that the first one is not in. This file relates the
results of single steps.

* `Correspondence`: which tokens, positions and errors of the two parses belong together.
* `Sequel`: what follows in the second source where the first one ends.
* `Sequel.Admits`: the tokens that may stand in front of that.
* `ParseState.Meets`, `ParseState.Follows`: states with corresponding tokens ahead, in the same
  context.
* `Agree`: results of two parses that belong together.
* `Agree.bind`: two steps, one after the other, on both sides.
* `AgreeOrEnded`: the same, unless the first parse has come to its end where it must go on.
* `Parse.agree_advance`, `Parse.agree_expectOr`, `Parse.agree_peek`: single steps.
-/

namespace SurfaceGrammar

/-! ## Correspondences -/

/-- The kinds of tokens that end an expression just as the end of a source does. -/
def TokenKind.enders : List TokenKind :=
  [.semicolon, .comma, .colon, .closeParen, .closeBracket, .closeCurly]

/-- What follows in the second source where the first one ends: a token that ends an expression, and
what is read after it. -/
structure Sequel where
  stop : Token
  behind : TokenStream
  ends : stop.kind ∈ TokenKind.enders
  /-- Whether the parses may be inside of different numbers of delimiters. -/
  inline : Bool

/-- What a token is like that stands in front of a sequel. Where a line break means something in one
parse and nothing in the other one, none stands before the token. A colon goes on with the branch of
a conditional and with a function, so the token does not begin them in front of a colon. -/
structure Sequel.Admits (q : Sequel) (t : Token) : Prop where
  line : q.inline = true → t.newlineBefore = false
  plain : q.stop.kind = .colon → t.isKeyword .if = false ∧ t.isKeyword .fn = false

/-- Any token may stand in front of a sequel that ends a statement or a block. -/
theorem Sequel.admits_of {q : Sequel} (hinline : q.inline = false) (hstop : q.stop.kind ≠ .colon)
    (t : Token) : q.Admits t :=
  ⟨fun h => absurd h (by rw [hinline]; decide), fun h => absurd h hstop⟩

/-- Which tokens, positions and errors of two parses belong together, and what the spans of two
parses have in common if their ends belong together. Tokens belong together only if they differ at
most in their places and in the line breaks before them. -/
structure Correspondence (α : Type) where
  token : Token → Token → Prop
  place : Position → Position → Prop
  error : Error → Error → Prop
  /-- What is kept of a span of the first parse. -/
  old : Span → α
  /-- What is kept of a span of the second parse. -/
  new : Span → α
  /-- What follows in the second source, if it does not end with the first one. -/
  sequel : Option Sequel
  unplaced : ∀ {t t' : Token}, token t t' → t'.kind = t.kind ∧ t'.value = t.value
  start : ∀ {t t' : Token}, token t t' → place t.span.start t'.span.start
  stop : ∀ {t t' : Token}, token t t' → place t.span.stop t'.span.stop
  located : ∀ {t t' : Token} (kind : ErrorKind), token t t' →
    error ⟨kind, t.span.start⟩ ⟨kind, t'.span.start⟩
  span : ∀ {p p' q q' : Position}, place p p' → place q q' → new ⟨p', q'⟩ = old ⟨p, q⟩
  join : ∀ {x x' y y' : Span}, new x' = old x → new y' = old y →
    new (x'.join y') = old (x.join y)
  admits : ∀ {t t' : Token} {q : Sequel}, token t t' → sequel = some q → q.Admits t

namespace Correspondence

variable {α : Type} (K : Correspondence α) {t t' : Token}

theorem kind (h : K.token t t') : t'.kind = t.kind := (K.unplaced h).1

theorem value (h : K.token t t') : t'.value = t.value := (K.unplaced h).2

theorem spans (h : K.token t t') : K.new t'.span = K.old t.span := K.span (K.start h) (K.stop h)

theorem keyword? (h : K.token t t') : t'.keyword? = t.keyword? := by
  simp only [Token.keyword?, K.kind h, K.value h]

theorem isKeyword (h : K.token t t') (keyword : Keyword) :
    t'.isKeyword keyword = t.isKeyword keyword := by
  simp only [Token.isKeyword, K.keyword? h]

theorem describe (h : K.token t t') : t'.describe = t.describe := by
  simp only [Token.describe, K.kind h, K.value h]

/-- The second source does not go on with a colon where the first one ends. -/
def Colonless : Prop := ∀ q, K.sequel = some q → q.stop.kind ≠ .colon

/-- In front of a colon no conditional and no function begins. -/
theorem colonless (h : K.token t t')
    (hword : t.keyword? = some .if ∨ t.keyword? = some .fn) : K.Colonless := by
  intro q hq hcolon
  obtain ⟨hif, hfn⟩ := (K.admits h hq).plain hcolon
  obtain hword | hword := hword
  · rw [Token.isKeyword_iff.mpr hword] at hif
    cases hif
  · rw [Token.isKeyword_iff.mpr hword] at hfn
    cases hfn

/-- The numbers of delimiters that two parses are in, inside which line breaks mean nothing. -/
def Depths (d d' : Nat) : Prop := (∃ q, K.sequel = some q ∧ q.inline = true) ∨ d' = d

theorem Depths.map {K : Correspondence α} {d d' : Nat} (h : K.Depths d d') (f : Nat → Nat) :
    K.Depths (f d) (f d') :=
  h.imp_right (congrArg f)

/-- Tokens that belong together, with a line break before both or before none. -/
def Same (t t' : Token) : Prop := K.token t t' ∧ t'.newlineBefore = t.newlineBefore

/-- What follows the tokens of two sources that end together: the tokens for their ends, or errors
that correspond. -/
inductive Ends (K : Correspondence α) : Except Error Token → Except Error Token → Prop
  | ok {t t' : Token} (h : K.token t t') : Ends K (.ok t) (.ok t')
  | error {e e' : Error} (h : K.error e e') : Ends K (.error e) (.error e')

/-- Streams of tokens that correspond one to one, up to where the first one ends. -/
inductive Streams (K : Correspondence α) : TokenStream → TokenStream → Prop
  | same {ts ts' : List Token} {ending ending' : Except Error Token} (none : K.sequel = none)
    (tokens : List.Forall₂ K.Same ts ts') (ends : K.Ends ending ending') :
    Streams K ⟨ts, ending⟩ ⟨ts', ending'⟩
  | more {ts ts' : List Token} {stop : Token} {q : Sequel} (some : K.sequel = some q)
    (tokens : List.Forall₂ K.Same ts ts') :
    Streams K ⟨ts, .ok stop⟩ ⟨ts' ++ q.stop :: q.behind.tokens, q.behind.ending⟩

/-- What stands at the beginning of two streams: tokens that correspond, or the end of the first
stream and what follows there in the second one. -/
inductive Faces (K : Correspondence α) : Token → TokenStream → Token → TokenStream → Prop
  | token {t t' : Token} {rest rest' : TokenStream} (token : K.token t t')
    (streams : K.Streams rest rest') (ne_eof : K.sequel.isSome = true → t.kind ≠ .eof) :
    Faces K t rest t' rest'
  | stopped {t : Token} {rest : TokenStream} {q : Sequel} (some : K.sequel = some q)
    (eof : t.kind = .eof) : Faces K t rest q.stop q.behind

/-- What is decided by the kind of a token is decided alike, if it makes no difference between the
end of a source and what may follow there. -/
theorem Faces.decides {K : Correspondence α} {rest rest' : TokenStream}
    (h : K.Faces t rest t' rest') {β : Sort*} (f : TokenKind → β)
    (hf : ∀ kind ∈ TokenKind.enders, f kind = f .eof) : f t'.kind = f t.kind := by
  cases h with
  | token ht _ _ => rw [K.kind ht]
  | stopped _ heof => rw [heof, hf _ (Sequel.ends _)]

/-- What is read from both streams. -/
theorem Streams.read {K : Correspondence α} {stream stream' : TokenStream}
    (h : K.Streams stream stream') (hproper : stream.Proper) :
    (∃ t rest t' rest', stream.read = .ok (t, rest) ∧ stream'.read = .ok (t', rest') ∧
      K.Faces t rest t' rest' ∧ (t.kind ≠ .eof → t'.newlineBefore = t.newlineBefore)) ∨
    ∃ e e', stream.read = .error e ∧ stream'.read = .error e' ∧ K.error e e' := by
  cases h with
  | same hnone htokens hends =>
    have hopen : ¬K.sequel.isSome = true := by rw [hnone]; decide
    cases htokens with
    | cons ht hts =>
      refine .inl ⟨_, _, _, _, rfl, rfl, .token ht.1 (.same hnone hts hends) ?_, fun _ => ht.2⟩
      exact fun hsome => absurd hsome hopen
    | nil =>
      cases hends with
      | ok ht =>
        refine .inl ⟨_, _, _, _, rfl, rfl, .token ht (.same hnone .nil (.ok ht)) ?_, ?_⟩
        · exact fun hsome => absurd hsome hopen
        · exact fun hne => absurd (hproper.ending _ rfl) hne
      | error he => exact .inr ⟨_, _, rfl, rfl, he⟩
  | more hsome htokens =>
    cases htokens with
    | cons ht hts =>
      refine .inl ⟨_, _, _, _, rfl, rfl, .token ht.1 (.more hsome hts) ?_, fun _ => ht.2⟩
      exact fun _ => (hproper.tokens _ List.mem_cons_self).ne_eof
    | nil =>
      refine .inl ⟨_, _, _, _, rfl, rfl, .stopped hsome (hproper.ending _ rfl), fun hne => ?_⟩
      exact absurd (hproper.ending _ rfl) hne

/-- What two parses make of the same part of a source: the results differ in their spans only. -/
def Alike (K : Correspondence α) {β γ : Type} (view : (Span → α) → β → γ) (b c : β) : Prop :=
  view K.new c = view K.old b

section Trees

variable {e e' d d' : Expr Span}

theorem trees (h : K.Alike Expr.mapMark e e') : e'.mapMark K.new = e.mapMark K.old := h

theorem optional {o o' : Option (Expr Span)}
    (h : K.Alike (fun f => Option.map (Expr.mapMark f)) o o') :
    o'.map (Expr.mapMark K.new) = o.map (Expr.mapMark K.old) := h

theorem functionBody {b b' : Body Span} (h : K.Alike Body.mapMark b b') :
    b'.mapMark K.new = b.mapMark K.old := h

theorem statement {x x' : Stmt Span} (h : K.Alike Stmt.mapMark x x') :
    x'.mapMark K.new = x.mapMark K.old := h

theorem statements {xs xs' : List (Stmt Span)}
    (h : K.Alike (fun f => List.map (Stmt.mapMark f)) xs xs') :
    xs'.map (Stmt.mapMark K.new) = xs.map (Stmt.mapMark K.old) := h

/-- The spans of expressions that two parses make of the same part of a source. -/
theorem marks (h : K.Alike Expr.mapMark e e') : K.new e'.mark = K.old e.mark := by
  rw [← Expr.mark_mapMark K.new, ← Expr.mark_mapMark K.old,
    K.trees h]

theorem join_marks (he : K.Alike Expr.mapMark e e') (hd : K.Alike Expr.mapMark d d') :
    K.new (e'.mark.join d'.mark) = K.old (e.mark.join d.mark) :=
  K.join (K.marks he) (K.marks hd)

/-- The span from the start of an expression to the end of a token. -/
theorem extended {t t' : Token} (he : K.Alike Expr.mapMark e e') (ht : K.token t t') :
    K.new ⟨e'.mark.start, t'.span.stop⟩ = K.old ⟨e.mark.start, t.span.stop⟩ :=
  K.join (K.marks he) (K.spans ht)

end Trees

end Correspondence

/-! ## States -/

namespace ParseState

variable {α : Type}

/-- Two states in the same context, with corresponding tokens ahead. Whether a line break stands
before the current one may differ. -/
structure Meets (K : Correspondence α) (s s' : ParseState) : Prop where
  placed : s.Placed
  faces : K.Faces s.current s.upcoming s'.current s'.upcoming
  groupDepth : K.Depths s.groupDepth s'.groupDepth
  inReturnType : s'.inReturnType = s.inReturnType

/-- Two such states right behind tokens that belong together. -/
structure Follows (K : Correspondence α) (s s' : ParseState) : Prop extends s.Meets K s' where
  lastEnd : K.place s.lastEnd s'.lastEnd
  newlineBefore : s.current.kind ≠ .eof → s'.current.newlineBefore = s.current.newlineBefore

namespace Meets

variable {K : Correspondence α} {s s' t t' : ParseState}

/-- The first parse stands at its end, and the second one at what follows there. -/
theorem cases_kind (h : s.Meets K s') : (K.token s.current s'.current ∧
      K.Streams s.upcoming s'.upcoming ∧ (K.sequel.isSome = true → s.current.kind ≠ .eof)) ∨
    s.current.kind = .eof ∧ ∃ q, K.sequel = some q ∧ s'.current = q.stop ∧
      s'.upcoming = q.behind := by
  obtain ⟨-, hfaces, -, -⟩ := h
  generalize s.current = t, s.upcoming = rest, s'.current = t', s'.upcoming = rest' at hfaces
  cases hfaces with
  | token ht hrest hne => exact .inl ⟨ht, hrest, hne⟩
  | stopped hq heof => exact .inr ⟨heof, _, hq, rfl, rfl⟩

/-- Where the first source ends, the second parse stands at what follows there. -/
theorem sequel (h : s.Meets K s') {q : Sequel} (hq : K.sequel = some q)
    (heof : s.current.kind = .eof) : s'.current = q.stop ∧ s'.upcoming = q.behind := by
  obtain ⟨-, -, hne⟩ | ⟨-, p, hp, hnext⟩ := h.cases_kind
  · exact absurd heof (hne (by rw [hq]; rfl))
  · obtain rfl := Option.some.inj (hq.symm.trans hp)
    exact hnext

theorem token (h : s.Meets K s') (hne : s.current.kind ≠ .eof) : K.token s.current s'.current := by
  obtain ⟨ht, -⟩ | ⟨heof, -⟩ := h.cases_kind
  · exact ht
  · exact absurd heof hne

theorem streams (h : s.Meets K s') (hne : s.current.kind ≠ .eof) :
    K.Streams s.upcoming s'.upcoming := by
  obtain ⟨-, hrest, -⟩ | ⟨heof, -⟩ := h.cases_kind
  · exact hrest
  · exact absurd heof hne

theorem kind (h : s.Meets K s') (hne : s.current.kind ≠ .eof) :
    s'.current.kind = s.current.kind :=
  K.kind (h.token hne)

/-- Two sources that end together end together. -/
theorem kind_of_none (h : s.Meets K s') (hnone : K.sequel = none) :
    s'.current.kind = s.current.kind := by
  obtain ⟨ht, -⟩ | ⟨-, q, hq, -⟩ := h.cases_kind
  · exact K.kind ht
  · rw [hnone] at hq
    cases hq

/-- What is decided by the kind of a token is decided alike, if it makes no difference between the
end of a source and what may follow there. -/
theorem decides {β : Sort*} (h : s.Meets K s') (f : TokenKind → β)
    (hf : ∀ kind ∈ TokenKind.enders, f kind = f .eof) :
    f s'.current.kind = f s.current.kind :=
  h.faces.decides f hf

/-- If a colon does not follow where the first source ends, both parses stand at one or none. -/
theorem colon (h : s.Meets K s') (hcolon : K.Colonless) :
    decide (s'.current.kind = .colon) = decide (s.current.kind = .colon) := by
  obtain ⟨ht, -⟩ | ⟨heof, q, hq, hcurrent, -⟩ := h.cases_kind
  · rw [K.kind ht]
  · rw [hcurrent, heof]
    exact decide_eq_false (hcolon q hq)

/-- In front of a sequel on a line of its own the parses are in the same number of delimiters. -/
theorem depth_eq (h : s.Meets K s') {q : Sequel} (hq : K.sequel = some q)
    (hinline : q.inline = false) : s'.groupDepth = s.groupDepth := by
  obtain ⟨p, hp, hline⟩ | hdepth := h.groupDepth
  · obtain rfl := Option.some.inj (hq.symm.trans hp)
    rw [hinline] at hline
    cases hline
  · exact hdepth

/-- Neither the end of a source nor what may follow there is a keyword. -/
theorem isKeyword (h : s.Meets K s') (keyword : Keyword) :
    s'.current.isKeyword keyword = s.current.isKeyword keyword := by
  obtain ⟨ht, -⟩ | ⟨heof, q, -, hcurrent, -⟩ := h.cases_kind
  · exact K.isKeyword ht keyword
  · have hold : s.current.keyword? = none := Token.keyword?_eq_none (by rw [heof]; decide)
    have hnew : s'.current.keyword? = none := by
      refine Token.keyword?_eq_none fun hkind => ?_
      have hends := q.ends
      rw [← hcurrent, hkind] at hends
      revert hends
      decide
    simp only [Token.isKeyword, hold, hnew]

/-- Such states in other contexts, if the contexts are the same. -/
theorem congr (h : s.Meets K s') (hcurrent : t.current = s.current)
    (hupcoming : t.upcoming = s.upcoming) (hcurrent' : t'.current = s'.current)
    (hupcoming' : t'.upcoming = s'.upcoming) (hdepth : K.Depths t.groupDepth t'.groupDepth)
    (htype : t'.inReturnType = t.inReturnType) : t.Meets K t' where
  placed := h.placed.congr hcurrent hupcoming
  faces := by rw [hcurrent, hcurrent', hupcoming, hupcoming']; exact h.faces
  groupDepth := hdepth
  inReturnType := htype

/-- The states at the first tokens of two sources, or the errors there. -/
theorem exists_start {source source' : String} {settings : Settings}
    (h : K.Streams (TokenStream.ofSource source settings.file)
      (TokenStream.ofSource source' settings.file)) :
    (∃ s s', ParseState.start source settings = .ok s ∧
      ParseState.start source' settings = .ok s' ∧ s.Meets K s' ∧
      s.lastEnd = ⟨0, settings.file⟩ ∧ s'.lastEnd = ⟨0, settings.file⟩ ∧
      (s.current.kind ≠ .eof → s'.current.newlineBefore = s.current.newlineBefore)) ∨
    ∃ e e', ParseState.start source settings = .error e ∧
      ParseState.start source' settings = .error e' ∧ K.error e e' := by
  obtain ⟨t, rest, t', rest', hread, hread', hfaces, hline⟩ | ⟨e, e', hread, hread', he⟩ :=
    h.read (TokenStream.proper_ofScanner settings.file (Scanner.ofSource source))
  · have hs := ParseState.start_eq_ok_iff.mpr ⟨t, rest, hread, rfl⟩
    have hs' := ParseState.start_eq_ok_iff.mpr ⟨t', rest', hread', rfl⟩
    have hplaced := (ParseState.of_start hs).1
    exact .inl ⟨_, _, hs, hs', ⟨hplaced, hfaces, .inr rfl, rfl⟩, rfl, rfl, hline⟩
  · exact .inr ⟨e, e', ParseState.start_eq_error_iff.mpr hread,
      ParseState.start_eq_error_iff.mpr hread', he⟩

end Meets

namespace Follows

variable {K : Correspondence α} {s s' t t' : ParseState}

theorem atLineBreak (h : s.Follows K s') (hne : s.current.kind ≠ .eof) :
    s'.atLineBreak = s.atLineBreak := by
  simp only [ParseState.atLineBreak, h.newlineBefore hne]
  obtain ⟨q, hq, hinline⟩ | hdepth := h.groupDepth
  · rw [(K.admits (h.token hne) hq).line hinline, Bool.and_false, Bool.and_false]
  · rw [hdepth]

theorem spanFrom {p p' : Position} (h : s.Follows K s') (hp : K.place p p') :
    K.new (s'.spanFrom p') = K.old (s.spanFrom p) :=
  K.span hp h.lastEnd

/-- Such states in other contexts, if the contexts are the same. -/
theorem congr (h : s.Follows K s') (hcurrent : t.current = s.current)
    (hupcoming : t.upcoming = s.upcoming) (hlast : t.lastEnd = s.lastEnd)
    (hcurrent' : t'.current = s'.current) (hupcoming' : t'.upcoming = s'.upcoming)
    (hlast' : t'.lastEnd = s'.lastEnd) (hdepth : K.Depths t.groupDepth t'.groupDepth)
    (htype : t'.inReturnType = t.inReturnType) : t.Follows K t' where
  toMeets := h.toMeets.congr hcurrent hupcoming hcurrent' hupcoming' hdepth htype
  lastEnd := by rw [hlast, hlast']; exact h.lastEnd
  newlineBefore := by rw [hcurrent, hcurrent']; exact h.newlineBefore

end Follows

end ParseState

/-! ## Results -/

/-- The step does not succeed. -/
def Parse.Fails {β : Type} (m : Parse β) (s : ParseState) : Prop :=
  ∃ failure t, m s = .error failure t

theorem Parse.Fails.bind {β γ : Type} {m : Parse β} {f : β → Parse γ} {s : ParseState}
    (h : Fails m s) : Fails (m >>= f) s := by
  obtain ⟨failure, t, hfail⟩ := h
  exact ⟨failure, t, bind_of_error hfail⟩

section Results

variable {α : Type}

/-- Results of two parses that belong together: values of which `P` holds, or errors that
correspond. Nothing is said if the first parse reaches a bound, or if it fails in a source after
which the second one goes on. -/
inductive Agree (K : Correspondence α) {β γ : Type} (P : β → γ → Prop) :
    EStateM.Result Failure ParseState β → EStateM.Result Failure ParseState γ → Prop
  | ok {b : β} {c : γ} {s s' : ParseState} (value : P b c) (follows : s.Follows K s') :
    Agree K P (.ok b s) (.ok c s')
  | error {e e' : Error} {s s' : ParseState} (error : K.error e e') :
    Agree K P (.error (.error e) s) (.error (.error e') s')
  | lost {failure : Failure} {s : ParseState} {r : EStateM.Result Failure ParseState γ}
    (lost : failure = .exhausted ∨ K.sequel.isSome = true) : Agree K P (.error failure s) r

/-- Results of two parses that belong together, unless the first parse has come to the end of its
source and the second one goes on there. -/
def AgreeOrEnded (K : Correspondence α) {β γ : Type} (P : β → γ → Prop)
    (r : EStateM.Result Failure ParseState β) (r' : EStateM.Result Failure ParseState γ) : Prop :=
  Agree K P r r' ∨
    K.sequel.isSome = true ∧ ∃ b t, r = .ok b t ∧ t.current.kind = .eof

variable {K : Correspondence α} {β γ δ ε : Type} {P : β → γ → Prop} {Q : δ → ε → Prop}
  {s s' : ParseState}

namespace Agree

/-- Two steps, one after the other. -/
theorem bind {m : Parse β} {m' : Parse γ} {f : β → Parse δ} {f' : γ → Parse ε}
    (h : Agree K P (m s) (m' s'))
    (hf : ∀ b c t t', P b c → t.Follows K t' → Agree K Q (f b t) (f' c t')) :
    Agree K Q ((m >>= f) s) ((m' >>= f') s') := by
  change Agree K Q (EStateM.bind m f s) (EStateM.bind m' f' s')
  unfold EStateM.bind
  generalize m s = r at h
  generalize m' s' = r' at h
  cases h with
  | ok value follows => exact hf _ _ _ _ value follows
  | error error => exact .error error
  | lost lost => exact .lost lost

theorem map {m : Parse β} {m' : Parse γ} {g : β → δ} {g' : γ → ε}
    (h : Agree K P (m s) (m' s')) (hg : ∀ b c, P b c → Q (g b) (g' c)) :
    Agree K Q ((g <$> m) s) ((g' <$> m') s') := by
  change Agree K Q (EStateM.map g m s) (EStateM.map g' m' s')
  unfold EStateM.map
  generalize m s = r at h
  generalize m' s' = r' at h
  cases h with
  | ok value follows => exact .ok (hg _ _ value) follows
  | error error => exact .error error
  | lost lost => exact .lost lost

/-- The first parse fails, in a source after which the second one goes on. -/
theorem of_fails {m : Parse β} {r' : EStateM.Result Failure ParseState γ} {q : Sequel}
    (hq : K.sequel = some q) (h : Parse.Fails m s) : Agree K P (m s) r' := by
  obtain ⟨failure, t, hfail⟩ := h
  rw [hfail]
  refine .lost (.inr ?_)
  rw [hq]
  rfl

end Agree

namespace AgreeOrEnded

/-- Two steps, one after the other, of which the first parse may end with the second one. -/
theorem after {m : Parse β} {m' : Parse γ} {f : β → Parse δ} {f' : γ → Parse ε}
    (h : Agree K P (m s) (m' s'))
    (hf : ∀ b c t t', P b c → t.Follows K t' → AgreeOrEnded K Q (f b t) (f' c t')) :
    AgreeOrEnded K Q ((m >>= f) s) ((m' >>= f') s') := by
  generalize hr : m s = r at h
  generalize hr' : m' s' = r' at h
  cases h with
  | ok value follows =>
    rw [Parse.bind_of_ok hr, Parse.bind_of_ok hr']
    exact hf _ _ _ _ value follows
  | error error =>
    rw [Parse.bind_of_error hr, Parse.bind_of_error hr']
    exact .inl (.error error)
  | lost lost =>
    rw [Parse.bind_of_error hr]
    exact .inl (.lost lost)

/-- If the first parse ends with the first step, then the second step leaves it there. -/
theorem seq {m : Parse β} {m' : Parse γ} {f : β → Parse δ} {f' : γ → Parse ε}
    (h : AgreeOrEnded K P (m s) (m' s'))
    (hf : ∀ b c t t', P b c → t.Follows K t' → AgreeOrEnded K Q (f b t) (f' c t'))
    (hend : ∀ b t, t.current.kind = .eof → ∃ d, f b t = .ok d t) :
    AgreeOrEnded K Q ((m >>= f) s) ((m' >>= f') s') := by
  obtain h | ⟨hsome, b, t, hm, heof⟩ := h
  · exact after h hf
  · obtain ⟨d, hd⟩ := hend b t heof
    exact .inr ⟨hsome, d, t, by rw [Parse.bind_of_ok hm, hd], heof⟩

/-- If the first parse ends with the first step, then it does not go on well. -/
theorem bind {m : Parse β} {m' : Parse γ} {f : β → Parse δ} {f' : γ → Parse ε}
    (h : AgreeOrEnded K P (m s) (m' s'))
    (hf : ∀ b c t t', P b c → t.Follows K t' → Agree K Q (f b t) (f' c t'))
    (hend : K.sequel.isSome = true → ∀ b t, t.current.kind = .eof → Parse.Fails (f b) t) :
    Agree K Q ((m >>= f) s) ((m' >>= f') s') := by
  obtain h | ⟨hsome, b, t, hm, heof⟩ := h
  · exact h.bind hf
  · obtain ⟨failure, u, hfail⟩ := hend hsome b t heof
    rw [Parse.bind_of_ok hm, hfail]
    exact .lost (.inr hsome)

theorem map {m : Parse β} {m' : Parse γ} {g : β → δ} {g' : γ → ε}
    (h : AgreeOrEnded K P (m s) (m' s')) (hg : ∀ b c, P b c → Q (g b) (g' c)) :
    AgreeOrEnded K Q ((g <$> m) s) ((g' <$> m') s') := by
  obtain h | ⟨hsome, b, t, hm, heof⟩ := h
  · exact .inl (h.map hg)
  · exact .inr ⟨hsome, g b, t, Parse.map_of_ok hm, heof⟩

end AgreeOrEnded

end Results

/-! ## Steps -/

namespace Parse

variable {α : Type} {K : Correspondence α} {β γ δ ε : Type} {P : β → γ → Prop} {Q : δ → ε → Prop}
  {s s' : ParseState}

theorem agree_fail {e e' : Error} (h : K.error e e') : Agree K P (fail e s) (fail e' s') :=
  .error h

theorem agree_unexpected (expected : List TokenKind) (h : s.Meets K s') :
    Agree K P (unexpected expected s) (unexpected expected s') := by
  obtain ⟨ht, -⟩ | ⟨-, q, hq, -⟩ := h.cases_kind
  · refine agree_fail ?_
    unfold ParseState.unexpected
    rw [K.kind ht, K.describe ht]
    split
    · exact K.located _ ht
    · exact K.located _ ht
  · exact .of_fails hq ⟨_, _, rfl⟩

theorem agree_advance (h : s.Meets K s') (hne : s.current.kind ≠ .eof) :
    Agree K K.token (advance s) (advance s') := by
  have hpass {t : Token} {s₁ : ParseState} (hadvance : advance s = .ok t s₁) :=
    (passes_of_advance h.placed hne hadvance).2
  unfold advance at hpass ⊢
  obtain ⟨t, rest, t', rest', hread, hread', hfaces, hline⟩ | ⟨e, e', hread, hread', he⟩ :=
    (h.streams hne).read h.placed.proper
  · rw [hread] at hpass ⊢
    rw [hread']
    have hplaced := (hpass rfl).placed
    exact .ok (h.token hne)
      ⟨⟨hplaced, hfaces, h.groupDepth, h.inReturnType⟩, K.stop (h.token hne), hline⟩
  · rw [hread, hread']
    exact .error he

theorem agree_advance_kind {kind : TokenKind} (h : s.Meets K s') (hkind : s.current.kind = kind)
    (hne : kind ≠ .eof) : Agree K K.token (advance s) (advance s') :=
  agree_advance h (hkind ▸ hne)

theorem agree_expectOr {kind : TokenKind} (expected : List TokenKind) (h : s.Meets K s')
    (hne : kind ≠ .eof) :
    Agree K K.token (expectOr kind expected s) (expectOr kind expected s') := by
  unfold expectOr
  rw [bind_currentKind, bind_currentKind]
  obtain ⟨ht, -⟩ | ⟨heof, q, hq, -⟩ := h.cases_kind
  · rw [K.kind ht]
    split
    · next hkind => exact agree_advance_kind h hkind hne
    · exact agree_unexpected expected h
  · rw [if_neg (by rw [heof]; exact hne.symm)]
    exact .of_fails hq ⟨_, _, rfl⟩

theorem agree_expect {kind : TokenKind} (h : s.Meets K s') (hne : kind ≠ .eof) :
    Agree K K.token (expect kind s) (expect kind s') :=
  agree_expectOr [kind] h hne

/-- A look at the next token changes only what no step depends on. -/
theorem peek_of_read {t : Token} {rest : TokenStream} (h : s.upcoming.read = .ok (t, rest)) :
    ∃ s₁, peek s = .ok t s₁ ∧ s₁.current = s.current ∧ s₁.upcoming = s.upcoming ∧
      s₁.lastEnd = s.lastEnd ∧ s₁.groupDepth = s.groupDepth ∧
      s₁.inReturnType = s.inReturnType := by
  unfold peek
  rw [h]
  dsimp only
  split
  · exact ⟨_, rfl, rfl, rfl, rfl, rfl, rfl⟩
  · exact ⟨_, rfl, rfl, rfl, rfl, rfl, rfl⟩

/-- What a look at the next token tells is the same on both sides, if it makes no difference
between the end of a source and what may follow there. -/
def Overlooks {β : Sort*} (f : Token → β) : Prop :=
  ∀ t t' : Token, t.kind = .eof → t'.kind ∈ TokenKind.enders → f t' = f t

/-- A look at the token after the current one, and then another step. -/
theorem bind_peek {R : EStateM.Result Failure ParseState δ →
      EStateM.Result Failure ParseState ε → Prop} {f : Token → Parse δ} {f' : Token → Parse ε}
    (h : s.Meets K s') (hne : s.current.kind ≠ .eof)
    (herror : ∀ e e' t t', K.error e e' → R (.error (.error e) t) (.error (.error e') t'))
    (hf : ∀ t t' s₁ s₁' rest rest', K.Faces t rest t' rest' →
      (t.kind ≠ .eof → t'.newlineBefore = t.newlineBefore) → s₁.Meets K s₁' →
      s₁.current = s.current → s₁.upcoming.read = .ok (t, rest) → R (f t s₁) (f' t' s₁')) :
    R ((peek >>= f) s) ((peek >>= f') s') := by
  obtain ⟨t, rest, t', rest', hread, hread', hfaces, hline⟩ | ⟨e, e', hread, hread', he⟩ :=
    (h.streams hne).read h.placed.proper
  · obtain ⟨s₁, hpeek, hcurrent, hupcoming, -, hdepth, htype⟩ := peek_of_read hread
    obtain ⟨s₁', hpeek', hcurrent', hupcoming', -, hdepth', htype'⟩ := peek_of_read hread'
    rw [bind_of_ok hpeek, bind_of_ok hpeek']
    refine hf t t' s₁ s₁' rest rest' hfaces hline ?_ hcurrent (by rw [hupcoming, hread])
    exact h.congr hcurrent hupcoming hcurrent' hupcoming'
      (by rw [hdepth, hdepth']; exact h.groupDepth) (by rw [htype, htype', h.inReturnType])
  · have hpeek : peek s = .error (.error e) s := by unfold peek; rw [hread]
    have hpeek' : peek s' = .error (.error e') s' := by unfold peek; rw [hread']
    rw [bind_of_error hpeek, bind_of_error hpeek']
    exact herror _ _ _ _ he

/-- A look at the token after the current one, of which something is used, and then another
step. -/
theorem agree_peek {ζ : Type} (view : Token → ζ) {f : Token → Parse δ} {f' : Token → Parse ε}
    (h : s.Meets K s') (hne : s.current.kind ≠ .eof)
    (hview : ∀ t t', K.token t t' → (t.kind ≠ .eof → t'.newlineBefore = t.newlineBefore) →
      view t' = view t) (hover : Overlooks view)
    (hf : ∀ t t' s₁ s₁', view t' = view t → s₁.Meets K s₁' → s₁.current = s.current →
      Agree K Q (f t s₁) (f' t' s₁')) :
    Agree K Q ((peek >>= f) s) ((peek >>= f') s') := by
  refine bind_peek h hne (fun _ _ _ _ he => .error he)
    fun t t' s₁ s₁' _ _ hfaces hline hmeets hcurrent _ => hf t t' s₁ s₁' ?_ hmeets hcurrent
  cases hfaces with
  | token ht _ _ => exact hview t t' ht hline
  | stopped hq heof => exact hover _ _ heof (Sequel.ends _)

/-- A step after which a block is left. -/
theorem agree_exitBlock {m : Parse β} {m' : Parse γ} {depth depth' : Nat}
    (hdepth : K.Depths depth depth') (h : Agree K P (m s) (m' s')) :
    Agree K P (andFinally m (exitBlock depth) s) (andFinally m' (exitBlock depth') s') := by
  unfold andFinally
  generalize m s = r at h
  generalize m' s' = r' at h
  cases h with
  | ok value follows =>
    exact .ok value (follows.congr rfl rfl rfl rfl rfl rfl hdepth follows.inReturnType)
  | error error => exact .error error
  | lost lost => exact .lost lost

end Parse

end SurfaceGrammar

import SurfaceGrammar.Proofs.Grammar.Legibility
import SurfaceGrammar.Tree.Equality

/-!
# What a rendering identifies

Two parsed trees look the same if they are the same but for parts that are left out in one of them
and are the label `_` in the other. They are equal if they are the same but for the signs of zeros.
So neither of equality and looking the same is finer than the other.

* `Rewriting.unsigned`: trees without the signs of zeros.
* `Stmt.agreeEach_iff`: when trees are equal, whatever their marks are.
* `Expr.sexpr_filled`: placeholders do not show in the rendering.
* `Module.render_eq_iff`: when parsed trees look the same and when they are equal.
* `Module.exists_equal_render_ne`: looking the same and being equal are not the same.
-/

namespace SurfaceGrammar

/-! ## Literals -/

/-- A number without its sign if it is zero. -/
def Binary64.unsigned (x : Binary64) : Binary64 :=
  if x.magnitude = 0 then ⟨0⟩ else x

/-- A literal without the sign of zero. -/
def Literal.unsigned : Literal → Literal
  | .number x => .number x.unsigned
  | value => value

/-- Trees without the signs of zeros. -/
def Rewriting.unsigned : Rewriting where
  literal := Literal.unsigned

theorem Binary64.same_iff {x y : Binary64} (hx : x.isFinite = true) (hy : y.isFinite = true) :
    x.same y = true ↔ x.unsigned = y.unsigned := by
  have hzero : (⟨0⟩ : Binary64).magnitude = 0 := rfl
  simp only [Binary64.same, Binary64.isNaN_of_isFinite hx, Binary64.isNaN_of_isFinite hy,
    Bool.not_false, Bool.true_and, Bool.or_eq_true, decide_eq_true_eq, Bool.and_eq_true,
    Binary64.unsigned]
  split <;> split
  · simp [*]
  · next hx hy =>
    refine ⟨?_, ?_⟩
    · rintro (rfl | ⟨-, h⟩)
      · exact absurd hx hy
      · exact absurd h hy
    · rintro rfl
      exact absurd hzero hy
  · next hx hy =>
    refine ⟨?_, ?_⟩
    · rintro (rfl | ⟨h, -⟩)
      · exact absurd hy hx
      · exact absurd h hx
    · rintro rfl
      exact absurd hzero hx
  · next hx hy => simp [hx]

theorem Literal.same_iff {v w : Literal} (hv : v.IsFinite) (hw : w.IsFinite) :
    v.same w = true ↔ v.unsigned = w.unsigned := by
  cases v <;> cases w <;> simp [Literal.same, Literal.unsigned]
  exact Binary64.same_iff hv hw

/-! ## Trees -/

section Agree

variable {α : Type}

/-- Any two marks. -/
abbrev anyMarks (_ _ : α) : Bool := true

open Rewriting (unsigned)

mutual

/-- Two expressions are equal, whatever their marks are, if they are the same without the signs
of zeros. -/
theorem Expr.agree_iff : ∀ d e : Expr α, d.bare.Legible → e.bare.Legible →
    (d.agree anyMarks e = true ↔ d.bare.rewrite unsigned = e.bare.rewrite unsigned)
  | .literal v s, e => fun hd he => by
    cases e with
    | literal w t =>
      have hsame := Literal.same_iff (v := v) (w := w) hd he
      simpa [Expr.agree, Expr.rewrite, unsigned] using hsame
    | _ => simp [Expr.agree, Expr.bare, Expr.mapMark, Expr.rewrite]
  | .label m s, e => fun hd he => by
    cases e with
    | label n t =>
      simp [Expr.agree, Expr.rewrite]
    | _ => simp [Expr.agree, Expr.bare, Expr.mapMark, Expr.rewrite]
  | .sequence f ds s, e => fun hd he => by
    cases e with
    | sequence g es t =>
      have hes := Expr.agreeEach_iff ds es hd he
      simp [Expr.agree, Expr.bare, Expr.mapMark, Expr.rewrite, hes]
    | _ => simp [Expr.agree, Expr.bare, Expr.mapMark, Expr.rewrite]
  | .mapping ds s, e => fun hd he => by
    cases e with
    | mapping es t =>
      have hes := Entry.agreeEach_iff ds es hd he
      simp [Expr.agree, Expr.bare, Expr.mapMark, Expr.rewrite, hes]
    | _ => simp [Expr.agree, Expr.bare, Expr.mapMark, Expr.rewrite]
  | .object ds s, e => fun hd he => by
    cases e with
    | object es t =>
      have hes := Field.agreeEach_iff ds es hd he
      simp [Expr.agree, Expr.bare, Expr.mapMark, Expr.rewrite, hes]
    | _ => simp [Expr.agree, Expr.bare, Expr.mapMark, Expr.rewrite]
  | .function m ps r b s, e => fun hd he => by
    cases e with
    | function n qs u c t =>
      obtain ⟨-, hps, hr, hb⟩ := hd
      obtain ⟨-, hqs, hu, hc⟩ := he
      have hbody := Body.agree_iff b c hb hc
      simp only [Body.bare] at hbody
      simp [Expr.agree, Expr.bare, Expr.mapMark, Expr.rewrite, unsigned,
        Parameter.agreeEach_iff ps qs hps hqs, Expr.agreeOption_iff r u hr hu, hbody, and_assoc]
    | _ => simp [Expr.agree, Expr.bare, Expr.mapMark, Expr.rewrite]
  | .call f ds s, e => fun hd he => by
    cases e with
    | call g es t =>
      simp [Expr.agree, Expr.bare, Expr.mapMark, Expr.rewrite, Expr.agree_iff f g hd.1 he.1,
        Expr.agreeEach_iff ds es hd.2 he.2]
    | _ => simp [Expr.agree, Expr.bare, Expr.mapMark, Expr.rewrite]
  | .member d m s, e => fun hd he => by
    cases e with
    | member e n t =>
      simp [Expr.agree, Expr.rewrite, Expr.agree_iff d e hd.1 he.1]
    | _ => simp [Expr.agree, Expr.bare, Expr.mapMark, Expr.rewrite]
  | .binary l o r s, e => fun hd he => by
    cases e with
    | binary m p u t =>
      simp [Expr.agree, Expr.rewrite, Expr.agree_iff l m hd.1 he.1, Expr.agree_iff r u hd.2 he.2,
        and_assoc]
    | _ => simp [Expr.agree, Expr.bare, Expr.mapMark, Expr.rewrite]
  | .suffix d o s, e => fun hd he => by
    cases e with
    | suffix e p t =>
      simp [Expr.agree, Expr.rewrite, Expr.agree_iff d e hd he]
    | _ => simp [Expr.agree, Expr.bare, Expr.mapMark, Expr.rewrite]
  | .conditional c d r s, e => fun hd he => by
    cases e with
    | conditional b e u t =>
      simp [Expr.agree, Expr.bare, Expr.mapMark, Expr.rewrite, Expr.agree_iff c b hd.1 he.1,
        Expr.agree_iff d e hd.2.1 he.2.1, Expr.agreeOption_iff r u hd.2.2 he.2.2, and_assoc]
    | _ => simp [Expr.agree, Expr.bare, Expr.mapMark, Expr.rewrite]
  | .block k b s, e => fun hd he => by
    cases e with
    | block l c t =>
      simp [Expr.agree, Expr.bare, Expr.mapMark, Expr.rewrite, Stmt.agreeEach_iff b c hd he]
    | _ => simp [Expr.agree, Expr.bare, Expr.mapMark, Expr.rewrite]
  | .declaration m r d s, e => fun hd he => by
    cases e with
    | declaration n u e t =>
      simp [Expr.agree, Expr.bare, Expr.mapMark, Expr.rewrite, unsigned,
        Expr.agreeOption_iff r u hd.2.1 he.2.1, Expr.agree_iff d e hd.2.2 he.2.2, and_assoc]
    | _ => simp [Expr.agree, Expr.bare, Expr.mapMark, Expr.rewrite]
  | .update m o d s, e => fun hd he => by
    cases e with
    | update n p e t =>
      simp [Expr.agree, Expr.rewrite, Expr.agree_iff d e hd.2 he.2, and_assoc]
    | _ => simp [Expr.agree, Expr.bare, Expr.mapMark, Expr.rewrite]

theorem Body.agree_iff : ∀ b c : Body α, b.bare.Legible → c.bare.Legible →
    (b.agree anyMarks c = true ↔ b.bare.rewrite unsigned = c.bare.rewrite unsigned)
  | .block ss, .block ts => fun hb hc => by
    simp [Body.agree, Body.bare, Body.mapMark, Body.rewrite, Stmt.agreeEach_iff ss ts hb hc]
  | .arrow d, .arrow e => fun hb hc => by
    simp [Body.agree, Body.rewrite, Expr.agree_iff d e hb hc]
  | .block _, .arrow _ => by simp [Body.agree, Body.rewrite]
  | .arrow _, .block _ => by simp [Body.agree, Body.rewrite]

theorem Stmt.agree_iff : ∀ s t : Stmt α, s.bare.Legible → t.bare.Legible →
    (s.agree anyMarks t = true ↔ s.bare.rewrite unsigned = t.bare.rewrite unsigned)
  | .expression d, .expression e => fun hs ht => by
    simp [Stmt.agree, Stmt.rewrite, Expr.agree_iff d e hs ht]
  | .typeDefinition _ d _, .typeDefinition _ e _ => fun hs ht => by
    simp [Stmt.agree, Stmt.rewrite, Expr.agree_iff d e hs.2 ht.2]
  | .expression _, .typeDefinition _ _ _ => by simp [Stmt.agree, Stmt.rewrite]
  | .typeDefinition _ _ _, .expression _ => by simp [Stmt.agree, Stmt.rewrite]

theorem Expr.agreeEach_iff : ∀ ds es : List (Expr α),
    Expr.LegibleEach (Expr.mapMarkEach (fun _ => ()) ds) →
    Expr.LegibleEach (Expr.mapMarkEach (fun _ => ()) es) →
    (Expr.agreeEach anyMarks ds es = true ↔
      Expr.rewriteEach unsigned (Expr.mapMarkEach (fun _ => ()) ds) =
        Expr.rewriteEach unsigned (Expr.mapMarkEach (fun _ => ()) es))
  | [], [] => fun _ _ => by simp [Expr.agreeEach]
  | [], e :: es => fun _ _ => by simp [Expr.agreeEach, Expr.mapMarkEach, Expr.rewriteEach]
  | d :: ds, [] => fun _ _ => by simp [Expr.agreeEach, Expr.mapMarkEach, Expr.rewriteEach]
  | d :: ds, e :: es => fun hd he => by
    have hfirst := Expr.agree_iff d e hd.1 he.1
    have hrest := Expr.agreeEach_iff ds es hd.2 he.2
    simp only [Expr.bare] at hfirst
    simp [Expr.agreeEach, Expr.mapMarkEach, Expr.rewriteEach, hfirst, hrest]

theorem Expr.agreeOption_iff : ∀ o p : Option (Expr α),
    Expr.LegibleOption (Expr.mapMarkOption (fun _ => ()) o) →
    Expr.LegibleOption (Expr.mapMarkOption (fun _ => ()) p) →
    (Expr.agreeOption anyMarks o p = true ↔
      Expr.rewriteOption unsigned (Expr.mapMarkOption (fun _ => ()) o) =
        Expr.rewriteOption unsigned (Expr.mapMarkOption (fun _ => ()) p))
  | none, none => fun _ _ => by simp [Expr.agreeOption]
  | none, some e => fun _ _ => by simp [Expr.agreeOption, Expr.mapMarkOption, Expr.rewriteOption]
  | some d, none => fun _ _ => by simp [Expr.agreeOption, Expr.mapMarkOption, Expr.rewriteOption]
  | some d, some e => fun hd he => by
    have hpart := Expr.agree_iff d e hd he
    simp only [Expr.bare] at hpart
    simp [Expr.agreeOption, Expr.mapMarkOption, Expr.rewriteOption, hpart]

theorem Entry.agreeEach_iff : ∀ ds es : List (Entry α),
    Entry.LegibleEach (Entry.mapMarkEach (fun _ => ()) ds) →
    Entry.LegibleEach (Entry.mapMarkEach (fun _ => ()) es) →
    (Entry.agreeEach anyMarks ds es = true ↔
      Entry.rewriteEach unsigned (Entry.mapMarkEach (fun _ => ()) ds) =
        Entry.rewriteEach unsigned (Entry.mapMarkEach (fun _ => ()) es))
  | [], [] => fun _ _ => by simp [Entry.agreeEach]
  | [], ⟨_, _, _⟩ :: _ => fun _ _ => by
    simp [Entry.agreeEach, Entry.mapMarkEach, Entry.rewriteEach]
  | ⟨_, _, _⟩ :: _, [] => fun _ _ => by
    simp [Entry.agreeEach, Entry.mapMarkEach, Entry.rewriteEach]
  | ⟨k, v, _⟩ :: ds, ⟨l, w, _⟩ :: es => fun hd he => by
    have hkey := Expr.agree_iff k l hd.1 he.1
    have hvalue := Expr.agree_iff v w hd.2.1 he.2.1
    have hrest := Entry.agreeEach_iff ds es hd.2.2 he.2.2
    simp only [Expr.bare] at hkey hvalue
    simp [Entry.agreeEach, Entry.mapMarkEach, Entry.rewriteEach, hkey, hvalue, hrest, and_assoc]

theorem Field.agreeEach_iff : ∀ ds es : List (Field α),
    Field.LegibleEach (Field.mapMarkEach (fun _ => ()) ds) →
    Field.LegibleEach (Field.mapMarkEach (fun _ => ()) es) →
    (Field.agreeEach anyMarks ds es = true ↔
      Field.rewriteEach unsigned (Field.mapMarkEach (fun _ => ()) ds) =
        Field.rewriteEach unsigned (Field.mapMarkEach (fun _ => ()) es))
  | [], [] => fun _ _ => by simp [Field.agreeEach]
  | [], ⟨_, _, _⟩ :: _ => fun _ _ => by
    simp [Field.agreeEach, Field.mapMarkEach, Field.rewriteEach]
  | ⟨_, _, _⟩ :: _, [] => fun _ _ => by
    simp [Field.agreeEach, Field.mapMarkEach, Field.rewriteEach]
  | ⟨m, v, _⟩ :: ds, ⟨n, w, _⟩ :: es => fun hd he => by
    have hvalue := Expr.agree_iff v w hd.2.1 he.2.1
    have hrest := Field.agreeEach_iff ds es hd.2.2 he.2.2
    simp only [Expr.bare] at hvalue
    simp [Field.agreeEach, Field.mapMarkEach, Field.rewriteEach, hvalue, hrest, and_assoc]

theorem Parameter.agreeEach_iff : ∀ ps qs : List (Parameter α),
    Parameter.LegibleEach (Parameter.mapMarkEach (fun _ => ()) ps) →
    Parameter.LegibleEach (Parameter.mapMarkEach (fun _ => ()) qs) →
    (Parameter.agreeEach anyMarks ps qs = true ↔
      Parameter.rewriteEach unsigned (Parameter.mapMarkEach (fun _ => ()) ps) =
        Parameter.rewriteEach unsigned (Parameter.mapMarkEach (fun _ => ()) qs))
  | [], [] => fun _ _ => by simp [Parameter.agreeEach]
  | [], ⟨_, none, _⟩ :: _ | [], ⟨_, some _, _⟩ :: _ => fun _ _ => by
    simp [Parameter.agreeEach, Parameter.mapMarkEach, Parameter.rewriteEach]
  | ⟨_, none, _⟩ :: _, [] | ⟨_, some _, _⟩ :: _, [] => fun _ _ => by
    simp [Parameter.agreeEach, Parameter.mapMarkEach, Parameter.rewriteEach]
  | ⟨m, none, _⟩ :: ps, ⟨n, none, _⟩ :: qs => fun hp hq => by
    have hrest := Parameter.agreeEach_iff ps qs hp.2.2 hq.2.2
    simp [Parameter.agreeEach, Parameter.mapMarkEach, Parameter.rewriteEach, hrest]
  | ⟨m, some v, _⟩ :: ps, ⟨n, some w, _⟩ :: qs => fun hp hq => by
    have htype := Expr.agree_iff v w hp.2.1 hq.2.1
    have hrest := Parameter.agreeEach_iff ps qs hp.2.2 hq.2.2
    simp only [Expr.bare] at htype
    simp [Parameter.agreeEach, Parameter.mapMarkEach, Parameter.rewriteEach, Expr.rewriteOption,
      htype, hrest, and_assoc]
  | ⟨m, none, _⟩ :: ps, ⟨n, some w, _⟩ :: qs => fun _ _ => by
    simp [Parameter.agreeEach, Parameter.mapMarkEach, Parameter.rewriteEach, Expr.rewriteOption]
  | ⟨m, some v, _⟩ :: ps, ⟨n, none, _⟩ :: qs => fun _ _ => by
    simp [Parameter.agreeEach, Parameter.mapMarkEach, Parameter.rewriteEach, Expr.rewriteOption]

theorem Stmt.agreeEach_iff : ∀ ss ts : List (Stmt α),
    Stmt.LegibleEach (Stmt.mapMarkEach (fun _ => ()) ss) →
    Stmt.LegibleEach (Stmt.mapMarkEach (fun _ => ()) ts) →
    (Stmt.agreeEach anyMarks ss ts = true ↔
      Stmt.rewriteEach unsigned (Stmt.mapMarkEach (fun _ => ()) ss) =
        Stmt.rewriteEach unsigned (Stmt.mapMarkEach (fun _ => ()) ts))
  | [], [] => fun _ _ => by simp [Stmt.agreeEach]
  | [], t :: ts => fun _ _ => by simp [Stmt.agreeEach, Stmt.mapMarkEach, Stmt.rewriteEach]
  | s :: ss, [] => fun _ _ => by simp [Stmt.agreeEach, Stmt.mapMarkEach, Stmt.rewriteEach]
  | s :: ss, t :: ts => fun hs ht => by
    have hfirst := Stmt.agree_iff s t hs.1 ht.1
    have hrest := Stmt.agreeEach_iff ss ts hs.2 ht.2
    simp only [Stmt.bare] at hfirst
    simp [Stmt.agreeEach, Stmt.mapMarkEach, Stmt.rewriteEach, hfirst, hrest]

end

end Agree

/-! ## Placeholders -/

section Filled

open Rewriting (filled)

mutual

/-- Placeholders do not show in the rendering. -/
theorem Expr.sexpr_filled : ∀ e : Expr Unit, (e.rewrite filled).sexpr = e.sexpr
  | .literal _ _ => rfl
  | .label _ _ => rfl
  | .sequence _ es _ => by simp only [Expr.rewrite, Expr.sexpr, Expr.sexprEach_filled es]
  | .mapping es _ => by simp only [Expr.rewrite, Expr.sexpr, Entry.sexprEach_filled es]
  | .object fs _ => by simp only [Expr.rewrite, Expr.sexpr, Field.sexprEach_filled fs]
  | .function name ps type body _ => by
    have hname : ((filled.name name).map Sexpr.atom).getD Sexpr.absent =
        (name.map Sexpr.atom).getD Sexpr.absent := by
      cases name <;> rfl
    simp only [Expr.rewrite, Expr.sexpr, hname, Parameter.sexprEach_filled ps,
      Expr.sexprOption_filled type, Body.sexpr_filled body]
  | .call callee es _ => by
    simp only [Expr.rewrite, Expr.sexpr, Expr.sexpr_filled callee, Expr.sexprEach_filled es]
  | .member base _ _ => by simp only [Expr.rewrite, Expr.sexpr, Expr.sexpr_filled base]
  | .binary left _ right _ => by
    simp only [Expr.rewrite, Expr.sexpr, Expr.sexpr_filled left, Expr.sexpr_filled right]
  | .suffix base _ _ => by simp only [Expr.rewrite, Expr.sexpr, Expr.sexpr_filled base]
  | .conditional condition thenBranch none _ => by
    simp only [Expr.rewrite, Expr.rewriteOption, Expr.sexpr, Expr.sexpr_filled condition,
      Expr.sexpr_filled thenBranch]
  | .conditional condition thenBranch (some elseBranch) _ => by
    simp only [Expr.rewrite, Expr.rewriteOption, Expr.sexpr, Expr.sexpr_filled condition,
      Expr.sexpr_filled thenBranch, Expr.sexpr_filled elseBranch]
  | .block _ body _ => by simp only [Expr.rewrite, Expr.sexpr, Stmt.sexprEach_filled body]
  | .declaration _ type value _ => by
    simp only [Expr.rewrite, Expr.sexpr, Expr.sexprOption_filled type, Expr.sexpr_filled value]
  | .update _ _ value _ => by simp only [Expr.rewrite, Expr.sexpr, Expr.sexpr_filled value]

theorem Body.sexpr_filled : ∀ b : Body Unit, (b.rewrite filled).sexpr = b.sexpr
  | .block body => by simp only [Body.rewrite, Body.sexpr, Stmt.sexprEach_filled body]
  | .arrow value => by simp only [Body.rewrite, Body.sexpr, Expr.sexpr_filled value]

theorem Stmt.sexpr_filled : ∀ s : Stmt Unit, (s.rewrite filled).sexpr = s.sexpr
  | .expression value => by simp only [Stmt.rewrite, Stmt.sexpr, Expr.sexpr_filled value]
  | .typeDefinition _ definition _ => by
    simp only [Stmt.rewrite, Stmt.sexpr, Expr.sexpr_filled definition]

theorem Expr.sexprEach_filled : ∀ es : List (Expr Unit),
    Expr.sexprEach (Expr.rewriteEach filled es) = Expr.sexprEach es
  | [] => rfl
  | e :: es => by
    simp only [Expr.rewriteEach, Expr.sexprEach, Expr.sexpr_filled e, Expr.sexprEach_filled es]

/-- The label `_` looks like a type that is left out. -/
theorem Expr.sexprOption_filled : ∀ o : Option (Expr Unit),
    Expr.sexprOption (filled.type (Expr.rewriteOption filled o)) = Expr.sexprOption o
  | none => rfl
  | some e => Expr.sexpr_filled e

theorem Entry.sexprEach_filled : ∀ es : List (Entry Unit),
    Entry.sexprEach (Entry.rewriteEach filled es) = Entry.sexprEach es
  | [] => rfl
  | ⟨key, value, _⟩ :: es => by
    simp only [Entry.rewriteEach, Entry.sexprEach, Expr.sexpr_filled key, Expr.sexpr_filled value,
      Entry.sexprEach_filled es]

theorem Field.sexprEach_filled : ∀ fs : List (Field Unit),
    Field.sexprEach (Field.rewriteEach filled fs) = Field.sexprEach fs
  | [] => rfl
  | ⟨_, value, _⟩ :: fs => by
    simp only [Field.rewriteEach, Field.sexprEach, Expr.sexpr_filled value,
      Field.sexprEach_filled fs]

theorem Parameter.sexprEach_filled : ∀ ps : List (Parameter Unit),
    Parameter.sexprEach (Parameter.rewriteEach filled ps) = Parameter.sexprEach ps
  | [] => rfl
  | ⟨_, none, _⟩ :: ps => by
    simp only [Parameter.rewriteEach, Expr.rewriteOption, Parameter.sexprEach,
      Parameter.sexprEach_filled ps]
  | ⟨_, some type, _⟩ :: ps => by
    simp only [Parameter.rewriteEach, Expr.rewriteOption, Parameter.sexprEach,
      Expr.sexpr_filled type, Parameter.sexprEach_filled ps]

theorem Stmt.sexprEach_filled : ∀ ss : List (Stmt Unit),
    Stmt.sexprEach (Stmt.rewriteEach filled ss) = Stmt.sexprEach ss
  | [] => rfl
  | s :: ss => by
    simp only [Stmt.rewriteEach, Stmt.sexprEach, Stmt.sexpr_filled s, Stmt.sexprEach_filled ss]

end

end Filled

/-! ## Parsed sources -/

/-- Legible trees look the same if they are the same but for placeholders. -/
theorem Module.render_eq_iff_filled {m n : Module} (hm : Stmt.LegibleEach m.bare)
    (hn : Stmt.LegibleEach n.bare) : m.render = n.render ↔
      m.bare.map (Stmt.rewrite .filled) = n.bare.map (Stmt.rewrite .filled) := by
  constructor
  · intro h
    rw [Module.render_eq, Module.render_eq] at h
    have hdecode := Stmt.decode?_render hm
    rw [h, Stmt.decode?_render hn] at hdecode
    exact (Option.some.inj hdecode).symm
  · intro h
    have hrender : ∀ k : Module, (k.bare.map (Stmt.rewrite .filled)).map Stmt.render =
        k.bare.map Stmt.render := by
      intro k
      simp [Stmt.render, Stmt.sexpr_filled]
    rw [Module.render_eq, Module.render_eq, ← hrender m, ← hrender n, h]

/-- Legible trees are equal if they are the same but for the signs of zeros. -/
theorem Module.agree_iff_unsigned {m n : Module} (hm : Stmt.LegibleEach m.bare)
    (hn : Stmt.LegibleEach n.bare) : Stmt.agreeEach anyMarks m.body n.body = true ↔
      m.bare.map (Stmt.rewrite .unsigned) = n.bare.map (Stmt.rewrite .unsigned) := by
  rw [Module.bare, ← Stmt.mapMarkEach_eq] at hm hn
  have h := Stmt.agreeEach_iff m.body n.body hm hn
  simpa only [Stmt.mapMarkEach_eq, Stmt.rewriteEach_eq, Module.bare] using h

/-- Two parsed trees look the same if and only if they are the same once the label `_` stands for
the names and types that are left out. They are equal, whatever their spans are, if and only if they
are the same once zeros have no signs. -/
theorem Module.render_eq_iff {source other : String} {settings settings' : Settings}
    {m n : Module} (hm : parse source settings = .ok m) (hn : parse other settings' = .ok n) :
    (m.render = n.render ↔
      m.bare.map (Stmt.rewrite .filled) = n.bare.map (Stmt.rewrite .filled)) ∧
    (Stmt.agreeEach (fun _ _ => true) m.body n.body = true ↔
      m.bare.map (Stmt.rewrite .unsigned) = n.bare.map (Stmt.rewrite .unsigned)) := by
  have hm' := Module.legible_of_parse hm
  have hn' := Module.legible_of_parse hn
  exact ⟨Module.render_eq_iff_filled hm' hn', Module.agree_iff_unsigned hm' hn'⟩

/-- A source and the same one with more white space and a comma. -/
theorem Module.render_eq_iff_spaced :
    ∃ m n, parse "f(a, 1)" {} = .ok m ∧ parse "f(a,\n  1,)" {} = .ok n ∧
      (m.render = n.render ↔
        m.bare.map (Stmt.rewrite .filled) = n.bare.map (Stmt.rewrite .filled)) ∧
      (Stmt.agreeEach (fun _ _ => true) m.body n.body = true ↔
        m.bare.map (Stmt.rewrite .unsigned) = n.bare.map (Stmt.rewrite .unsigned)) := by
  obtain ⟨m, hm⟩ : ∃ m, parse "f(a, 1)" {} = .ok m := exists_of_isOk (by decide +kernel)
  obtain ⟨n, hn⟩ : ∃ n, parse "f(a,\n  1,)" {} = .ok n := exists_of_isOk (by decide +kernel)
  exact ⟨m, n, hm, hn, Module.render_eq_iff hm hn⟩

/-- Whether two sources are parsed to equal trees, and whether these look the same. -/
def compare? (source other : String) : Option (Bool × Bool) :=
  match parse source {}, parse other {} with
  | .ok m, .ok n => some (Stmt.agreeEach (fun _ _ => true) m.body n.body, m.render = n.render)
  | _, _ => none

theorem exists_of_compare? {source other : String} {equal rendered : Bool}
    (h : compare? source other = some (equal, rendered)) :
    ∃ m n, parse source {} = .ok m ∧ parse other {} = .ok n ∧
      Stmt.agreeEach (fun _ _ => true) m.body n.body = equal ∧
      decide (m.render = n.render) = rendered := by
  unfold compare? at h
  split at h
  · next m n hm hn =>
    cases h
    exact ⟨m, n, hm, hn, rfl, rfl⟩
  · cases h

/-- Zeros of both signs are equal but do not look the same. A function without a name and one with
the name `_` look the same but are not equal. -/
theorem Module.exists_equal_render_ne :
    (∃ m n, parse "00" {} = .ok m ∧ parse "-0" {} = .ok n ∧
      Stmt.agreeEach (fun _ _ => true) m.body n.body = true ∧ m.render ≠ n.render) ∧
    ∃ m n, parse "fn (x) -> x" {} = .ok m ∧ parse "fn _(x) -> x" {} = .ok n ∧
      Stmt.agreeEach (fun _ _ => true) m.body n.body = false ∧ m.render = n.render := by
  have hzeros : compare? "00" "-0" = some (true, false) := by decide +kernel
  have hnames : compare? "fn (x) -> x" "fn _(x) -> x" = some (false, true) := by decide +kernel
  constructor
  · obtain ⟨m, n, hm, hn, hequal, hrender⟩ := exists_of_compare? hzeros
    exact ⟨m, n, hm, hn, hequal, of_decide_eq_false hrender⟩
  · obtain ⟨m, n, hm, hn, hequal, hrender⟩ := exists_of_compare? hnames
    exact ⟨m, n, hm, hn, hequal, of_decide_eq_true hrender⟩

end SurfaceGrammar

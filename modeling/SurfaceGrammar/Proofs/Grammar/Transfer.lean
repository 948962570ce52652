import SurfaceGrammar.Proofs.Grammar.Leaves

/-!
# Phrases of other tokens

A phrase stays a phrase if its tokens are replaced by others of the same kind and value. Spans may
differ, and between delimiters inside which line breaks mean nothing, line breaks may differ
as well; only what stands right after a point must be a field in both or in none.

* `Change`: a token and the one that takes its place.
* `Change.Points`: what stands after a point is a field in both places or in none.
* `Swap`: the leaves of a phrase and those that take their places, in front of other tokens.
* `Transfers`: whatever takes the places of the leaves of a phrase makes up the same phrase. There
  is a lemma for each way to put phrases together.
* `Derives.transfer`: the phrase of the tokens that take the places.
-/

namespace SurfaceGrammar

open Lookahead

/-! ## Tokens in the places of others -/

/-- In the surroundings one token may take the place of another one. -/
structure Surroundings.Replaces (c : Surroundings) (t' t : Token) : Prop where
  kind : t'.kind = t.kind
  value : t'.value = t.value
  line : c.grouped = false → t'.newlineBefore = t.newlineBefore

namespace Surroundings.Replaces

variable {c : Surroundings} {t t' : Token}

theorem keyword? (h : c.Replaces t' t) : t'.keyword? = t.keyword? := by
  simp only [Token.keyword?, h.kind, h.value]

theorem isKeyword (h : c.Replaces t' t) (keyword : Keyword) :
    t'.isKeyword keyword = t.isKeyword keyword := by
  simp only [Token.isKeyword, h.keyword?]

theorem breaks (h : c.Replaces t' t) : breaks c [t'] = breaks c [t] := by
  unfold Lookahead.breaks
  cases hc : c.grouped with
  | true => rfl
  | false => exact h.line hc

theorem plainLabel {r r' : List Token} (h : c.Replaces t' t)
    (hkind : Lookahead.kind r' = Lookahead.kind r) :
    plainLabel c t' r' = plainLabel c t r := by
  simp only [Lookahead.plainLabel, h.kind, h.keyword?, hkind]

end Surroundings.Replaces

/-- A token and the one that takes its place. -/
structure Change where
  old : Token
  new : Token
  /-- Whether the innermost delimiter that is open before the token is one inside which line
  breaks mean nothing. -/
  grouped : Bool
  kind : new.kind = old.kind
  value : new.value = old.value
  line : grouped = false → new.newlineBefore = old.newlineBefore

namespace Change

/-- The leaf before the change. -/
def before (x : Change) : Leaf := ⟨x.old, x.grouped⟩

/-- The leaf after the change. -/
def after (x : Change) : Leaf := ⟨x.new, x.grouped⟩

@[simp] theorem words_map_before (d : List Change) :
    words (d.map before) = d.map Change.old := by
  simp [words, Function.comp_def, before]

@[simp] theorem words_map_after (d : List Change) : words (d.map after) = d.map Change.new := by
  simp [words, Function.comp_def, after]

/-- What stands right after a point is a field in both places or in none. -/
def Points (d : List Change) : Prop :=
  ∀ pre x y post, d = pre ++ x :: y :: post → x.old.kind = .dot →
    Parse.isField y.new = Parse.isField y.old

/-- What stands right after a phrase stands in the surroundings of the phrase. -/
def Follows (c : Surroundings) (f : List Change) : Prop :=
  ∀ x ∈ f.head?, x.grouped = c.grouped

variable {c : Surroundings} {x : Change} {d e f : List Change} {t : Token} {u : List Leaf}

theorem replaces (hx : x.grouped = c.grouped) : c.Replaces x.new x.old :=
  ⟨x.kind, x.value, fun hc => x.line (hx.trans hc)⟩

theorem isKeyword (x : Change) (keyword : Keyword) :
    x.new.isKeyword keyword = x.old.isKeyword keyword :=
  (replaces rfl : Surroundings.Replaces ⟨x.grouped, false⟩ x.new x.old).isKeyword keyword

theorem kind_new (f : List Change) :
    Lookahead.kind (f.map new) = Lookahead.kind (f.map old) := by
  cases f with
  | nil => rfl
  | cons x f => exact x.kind

theorem Points.of_append (h : Points (d ++ e)) : Points e :=
  fun pre x y post he => h (d ++ pre) x y post (by rw [he, List.append_assoc])

theorem Points.of_cons (h : Points (x :: d)) : Points d :=
  Points.of_append (d := [x]) h

/-- What stands after a point, in both places. -/
theorem Points.isField (h : Points (x :: f)) (hx : x.old.kind = .dot) :
    Lookahead.isField (f.map new) = Lookahead.isField (f.map old) := by
  cases f with
  | nil => rfl
  | cons y f => exact h [] x y f rfl hx

theorem Follows.nil : Follows c [] := by simp [Follows]

theorem Follows.cons (hx : x.grouped = c.grouped) : Follows c (x :: f) := by
  intro y hy
  cases hy
  exact hx

theorem exists_of_map_eq_cons (h : d.map before = c.leaf t :: u) :
    ∃ x e, d = x :: e ∧ x.old = t ∧ x.grouped = c.grouped ∧ e.map before = u := by
  obtain ⟨x, e, rfl, hx, he⟩ := List.map_eq_cons_iff.mp h
  exact ⟨x, e, rfl, congrArg Leaf.token hx, congrArg Leaf.grouped hx, he⟩

theorem map_after_cons (hx : x.grouped = c.grouped) (e : List Change) :
    (x :: e).map after = c.leaf x.new :: e.map after := by
  simp [after, Surroundings.leaf, hx]

end Change

/-! ## Leaves in the places of others -/

open Change in
/-- The leaves `w'` take the places of the leaves `w` of a phrase in the surroundings `c`, and the
tokens `r'` those of the tokens `r` that follow. -/
def Swap (c : Surroundings) (w w' : List Leaf) (r r' : List Token) : Prop :=
  ∃ d f : List Change, d.map before = w ∧ d.map after = w' ∧ f.map old = r ∧ f.map new = r' ∧
    Points (d ++ f) ∧ Follows c f

/-- The first one of the leaves stands in the surroundings. -/
def Surroundings.Opens (c : Surroundings) (w : List Leaf) : Prop :=
  ∀ l ∈ w.head?, l.grouped = c.grouped

theorem Surroundings.Opens.append {c : Surroundings} {v w : List Leaf} (hv : c.Opens v)
    (hw : c.Opens w) : c.Opens (v ++ w) :=
  forall_head?_append hv hw

namespace Swap

open Change

variable {c c' : Surroundings} {u v w w' z : List Leaf} {r r' : List Token} {t : Token}

theorem eq_nil (h : Swap c [] z r r') : z = [] := by
  obtain ⟨d, f, hd, rfl, -⟩ := h
  cases List.map_eq_nil_iff.mp hd
  rfl

theorem leaf (h : Swap c (c.leaf t :: w) z r r') :
    ∃ t' w', z = c.leaf t' :: w' ∧ c.Replaces t' t ∧ Swap c w w' r r' := by
  obtain ⟨d, f, hd, rfl, rfl, rfl, hpoints, hf⟩ := h
  obtain ⟨x, e, rfl, rfl, hx, rfl⟩ := exists_of_map_eq_cons hd
  exact ⟨x.new, e.map after, map_after_cons hx e, replaces hx, e, f, rfl, rfl, rfl, rfl,
    hpoints.of_cons, hf⟩

/-- Two groups of leaves, of which the second one begins in the same surroundings. -/
theorem append (h : Swap c (u ++ w) z r r') (hw : c.Opens w) :
    ∃ u' w', z = u' ++ w' ∧ Swap c u u' (words w ++ r) (words w' ++ r') ∧ Swap c w w' r r' := by
  obtain ⟨d, f, hd, rfl, rfl, rfl, hpoints, hf⟩ := h
  obtain ⟨d, e, rfl, rfl, rfl⟩ := List.map_eq_append_iff.mp hd
  rw [List.append_assoc] at hpoints
  have hfollows : Follows c (e ++ f) := by
    cases e with
    | nil => exact hf
    | cons x e => exact .cons (hw x.before rfl)
  exact ⟨d.map after, e.map after, List.map_append,
    ⟨d, e ++ f, rfl, rfl, by simp, by simp, hpoints, hfollows⟩,
    e, f, rfl, rfl, rfl, rfl, hpoints.of_append, hf⟩

/-- Three groups of leaves. -/
theorem append₃ (h : Swap c (u ++ (v ++ w)) z r r') (hv : c.Opens v) (hw : c.Opens w) :
    ∃ u' v' w', z = u' ++ (v' ++ w') ∧
      Swap c u u' (words v ++ (words w ++ r)) (words v' ++ (words w' ++ r')) ∧
      Swap c v v' (words w ++ r) (words w' ++ r') ∧ Swap c w w' r r' := by
  obtain ⟨u', z', rfl, hu, h⟩ := h.append (hv.append hw)
  obtain ⟨v', w', rfl, hv', hw'⟩ := h.append hw
  rw [words_append, words_append, List.append_assoc, List.append_assoc] at hu
  exact ⟨u', v', w', rfl, hu, hv', hw'⟩

/-- Leaves in the surroundings of the token that follows, which is the first one of the others. -/
theorem append_leaf (h : Swap c (u ++ c'.leaf t :: w) z r r') :
    ∃ u' t' w', z = u' ++ c'.leaf t' :: w' ∧ c'.Replaces t' t ∧
      Swap c' u u' (t :: (words w ++ r)) (t' :: (words w' ++ r')) ∧ Swap c w w' r r' := by
  obtain ⟨d, f, hd, rfl, rfl, rfl, hpoints, hf⟩ := h
  obtain ⟨d, e, rfl, rfl, he⟩ := List.map_eq_append_iff.mp hd
  obtain ⟨x, e, rfl, rfl, hx, rfl⟩ := exists_of_map_eq_cons he
  rw [List.append_assoc] at hpoints
  refine ⟨d.map after, x.new, e.map after, ?_, replaces hx,
    ⟨d, x :: (e ++ f), rfl, rfl, by simp, by simp, hpoints, .cons hx⟩,
    e, f, rfl, rfl, rfl, rfl, hpoints.of_append.of_cons, hf⟩
  rw [List.map_append, map_after_cons hx]

/-- A name or nothing, in front of other leaves. -/
theorem name {name : Option Token} (h : Swap c (name.toList.map c.leaf ++ w) z r r')
    (hkind : ∀ n ∈ name, n.kind = .identifier) :
    ∃ (name' : Option Token) (w' : List Leaf), z = name'.toList.map c.leaf ++ w' ∧
      (∀ n ∈ name', n.kind = .identifier) ∧ name'.map Token.value = name.map Token.value ∧
      Swap c w w' r r' := by
  cases name with
  | none => exact ⟨none, z, rfl, nofun, rfl, h⟩
  | some n =>
    obtain ⟨n', w', rfl, hn, h⟩ := h.leaf
    refine ⟨some n', w', rfl, fun m hm => ?_, congrArg some hn.value, h⟩
    cases hm
    exact hn.kind.trans (hkind n rfl)

/-! ### What is seen ahead -/

theorem kind (h : Swap c w w' r r') :
    Lookahead.kind (words w' ++ r') = Lookahead.kind (words w ++ r) := by
  obtain ⟨d, f, rfl, rfl, rfl, rfl, -⟩ := h
  rw [words_map_before, words_map_after, ← List.map_append, ← List.map_append]
  exact kind_new (d ++ f)

theorem kind_rest (h : Swap c w w' r r') : Lookahead.kind r' = Lookahead.kind r := by
  obtain ⟨d, f, rfl, rfl, rfl, rfl, -⟩ := h
  exact kind_new f

theorem isKeyword (h : Swap c w w' r r') (keyword : Keyword) :
    Lookahead.isKeyword keyword (words w' ++ r') = Lookahead.isKeyword keyword (words w ++ r) := by
  obtain ⟨d, f, rfl, rfl, rfl, rfl, -⟩ := h
  rw [words_map_before, words_map_after, ← List.map_append, ← List.map_append]
  cases d ++ f with
  | nil => rfl
  | cons x e => exact x.isKeyword keyword

theorem bindsLabel (h : Swap c w w' r r') :
    Lookahead.bindsLabel (words w' ++ r') = Lookahead.bindsLabel (words w ++ r) := by
  obtain ⟨d, f, rfl, rfl, rfl, rfl, -⟩ := h
  rw [words_map_before, words_map_after, ← List.map_append, ← List.map_append]
  cases d ++ f with
  | nil => rfl
  | cons x e => simp only [List.map_cons, Lookahead.bindsLabel, x.kind, kind_new]

/-- What stands after a point. -/
theorem isField {l l' : Leaf} (h : Swap c (l :: w) (l' :: w') r r') (hl : l.token.kind = .dot) :
    Lookahead.isField (words w' ++ r') = Lookahead.isField (words w ++ r) := by
  obtain ⟨d, f, hd, hd', rfl, rfl, hpoints, -⟩ := h
  obtain ⟨x, e, rfl, rfl, rfl⟩ := List.map_eq_cons_iff.mp hd
  obtain ⟨-, rfl⟩ := List.cons.inj hd'
  rw [words_map_before, words_map_after, ← List.map_append, ← List.map_append]
  exact Points.isField hpoints hl

theorem isOnNewLine (h : Swap c w w' r r') (hc : c.grouped = false) :
    Lookahead.isOnNewLine r' = Lookahead.isOnNewLine r := by
  obtain ⟨d, f, -, -, rfl, rfl, -, hf⟩ := h
  cases f with
  | nil => rfl
  | cons x f => exact x.line ((hf x rfl).trans hc)

theorem breaks (h : Swap c w w' r r') : Lookahead.breaks c r' = Lookahead.breaks c r := by
  unfold Lookahead.breaks
  cases hc : c.grouped with
  | true => rfl
  | false => rw [h.isOnNewLine hc]

theorem endsChain (h : Swap c w w' r r') :
    Lookahead.endsChain c r' = Lookahead.endsChain c r := by
  simp only [Lookahead.endsChain, h.breaks, h.kind_rest]

theorem endsOperators (h : Swap c w w' r r') (power : Power) :
    Lookahead.endsOperators c power r' = Lookahead.endsOperators c power r := by
  simp only [Lookahead.endsOperators, h.breaks, h.kind_rest]

theorem endsStatement (h : Swap c w w' r r') (close : TokenKind) (hc : c.grouped = false) :
    Lookahead.endsStatement close r' = Lookahead.endsStatement close r := by
  simp only [Lookahead.endsStatement, h.isOnNewLine hc, h.kind_rest]

/-- No type definition begins where none began before. -/
theorem definesType {elseRequired valueRequired : Bool} {e : Expr Unit} (hs : Swap c w w' r r')
    (h : Derives elseRequired (.statementExpr valueRequired) c w e r) (hc : c.grouped = false)
    (hno : Lookahead.definesType (words w ++ r) = false) :
    Lookahead.definesType (words w' ++ r') = false := by
  obtain ⟨t, u, rfl, -⟩ := h.starts rfl
  obtain ⟨t', u', rfl, ht, hu⟩ := hs.leaf
  rw [words_cons, List.cons_append, Bool.eq_false_iff, ne_eq, definesType_cons_iff] at hno ⊢
  rintro ⟨hword, hkind, hline⟩
  rw [Surroundings.token_leaf, ht.isKeyword] at hword
  rw [hu.kind] at hkind
  refine hno ⟨hword, hkind, ?_⟩
  cases u with
  | nil =>
    obtain rfl := hu.eq_nil
    exact (hu.isOnNewLine hc).symm.trans hline
  | cons l u => exact absurd hkind (h.kind_of_second (Token.isKeyword_iff.mp hword))

end Swap

/-! ## Phrases of the leaves -/

/-- Whether line breaks end a phrase wherever it stands. -/
def Phrase.endsAtLine : Phrase → Bool
  | .content | .terminator _ | .statements _ => true
  | _ => false

/-- Whatever takes the places of the leaves of a phrase makes up the same phrase. -/
def Transfers (elseRequired : Bool) (p : Phrase) (c : Surroundings) (w : List Leaf)
    (v : p.Tree Unit) (r : List Token) : Prop :=
  (p.endsAtLine = true → c.grouped = false) → ∀ {w' : List Leaf} {r' : List Token},
    Swap c w w' r r' → Derives elseRequired p c w' v r'

theorem Derives.opens {elseRequired : Bool} {p : Phrase} {c : Surroundings} {w : List Leaf}
    {v : p.Tree Unit} {r : List Token} (h : Derives elseRequired p c w v r)
    (hp : p.beginsOutside = true) : c.Opens w :=
  h.grouped_of_head? hp

namespace Transfers

variable {elseRequired : Bool} {p q : Phrase} {c : Surroundings} {u w : List Leaf}
  {x : p.Tree Unit} {y : q.Tree Unit} {r : List Token} {t k o : Token}

/-- A phrase without leaves. -/
theorem nil (h : ∀ {r'}, Swap c [] [] r r' → Derives elseRequired p c [] x r') :
    Transfers elseRequired p c [] x r := by
  intro _ w' r' hs
  obtain rfl := hs.eq_nil
  exact h hs

/-- A phrase with one leaf. -/
theorem leaf (h : ∀ {t' r'}, c.Replaces t' t → Swap c [] [] r r' →
      Derives elseRequired p c [c.leaf t'] x r') :
    Transfers elseRequired p c [c.leaf t] x r := by
  intro _ w' r' hs
  obtain ⟨t', w', rfl, ht, hs⟩ := hs.leaf
  obtain rfl := hs.eq_nil
  exact h ht hs

/-- A phrase that consists of another one. -/
theorem same (hq : q.endsAtLine = false) (hinner : Transfers elseRequired q c w y r)
    (h : ∀ {w' r'}, Swap c w w' r r' → Derives elseRequired q c w' y r' →
      Derives elseRequired p c w' x r') : Transfers elseRequired p c w x r :=
  fun _ _ _ hs => h hs (hinner (by simp [hq]) hs)

/-- A phrase that begins with a leaf and goes on with another phrase. -/
theorem cons (hq : q.endsAtLine = false) (hinner : Transfers elseRequired q c w y r)
    (h : ∀ {t' w' r'}, c.Replaces t' t → Derives elseRequired q c w' y r' →
      Derives elseRequired p c (c.leaf t' :: w') x r') :
    Transfers elseRequired p c (c.leaf t :: w) x r := by
  intro _ w' r' hs
  obtain ⟨t', w', rfl, ht, hs⟩ := hs.leaf
  exact h ht (hinner (by simp [hq]) hs)

/-- A phrase that begins with two leaves and goes on with another phrase. -/
theorem cons_cons (hq : q.endsAtLine = false) (hinner : Transfers elseRequired q c w y r)
    (h : ∀ {k' o' w' r'}, c.Replaces k' k → c.Replaces o' o → Derives elseRequired q c w' y r' →
      Derives elseRequired p c (c.leaf k' :: c.leaf o' :: w') x r') :
    Transfers elseRequired p c (c.leaf k :: c.leaf o :: w) x r := by
  intro _ w' r' hs
  obtain ⟨k', w', rfl, hk, hs⟩ := hs.leaf
  obtain ⟨o', w', rfl, ho, hs⟩ := hs.leaf
  exact h hk ho (hinner (by simp [hq]) hs)

/-! ### Functions, blocks and conditionals -/

theorem function {name : Option Token} {wp wt wb : List Leaf} {ps : List (Parameter Unit)}
    {comma : Bool} {type : Option (Expr Unit)} {body : Body Unit} (word : k.keyword? = some .fn)
    (named : ∀ n ∈ name, n.kind = .identifier) (opening : o.kind = .openParen)
    (htype : c.Opens wt) (hbody : c.Opens wb)
    (parameters : Transfers elseRequired (.delimited .parameter .closeParen) c wp (ps, comma)
      (words wt ++ (words wb ++ r)))
    (returnType : Transfers elseRequired .typeAfterColon (c.typing true) wt type (words wb ++ r))
    (inner : Transfers elseRequired .functionBody (c.typing false) wb body r) :
    Transfers elseRequired .primary c
      (c.leaf k :: (name.toList.map c.leaf ++ c.leaf o :: (wp ++ (wt ++ wb))))
      (.function (name.map Token.value) ps type body ()) r := by
  intro _ z r' hs
  obtain ⟨k', z, rfl, hk, hs⟩ := hs.leaf
  obtain ⟨name', z, rfl, hnamed, hname, hs⟩ := hs.name named
  obtain ⟨o', z, rfl, ho, hs⟩ := hs.leaf
  obtain ⟨wp', wt', wb', rfl, hp, ht, hb⟩ := hs.append₃ htype hbody
  rw [← hname]
  exact .function (hk.keyword?.trans word) hnamed (ho.kind.trans opening) (parameters nofun hp)
    (returnType nofun ht) (inner nofun hb)

theorem blockBody {body : List (Stmt Unit)} (opening : o.kind = .openCurly)
    (closing : k.kind = .closeCurly)
    (inner : Transfers elseRequired (.statements .closeCurly) c.block w body (k :: r)) :
    Transfers elseRequired .blockBody c (c.leaf o :: (w ++ [c.block.leaf k])) body r := by
  intro _ z r' hs
  obtain ⟨o', z, rfl, ho, hs⟩ := hs.leaf
  obtain ⟨w', k', z, rfl, hk, hw, hs⟩ := hs.append_leaf
  obtain rfl := hs.eq_nil
  exact .blockBody (ho.kind.trans opening) (inner (fun _ => rfl) hw) (hk.kind.trans closing)

theorem conditional {valueRequired : Bool} {wc ws wt we : List Leaf} {e e₁ : Expr Unit}
    {e₂ : Option (Expr Unit)} (word : k.keyword? = some .if) (hseparator : c.Opens ws)
    (hthen : c.Opens wt) (helse : c.Opens we)
    (condition : Transfers elseRequired (.expr .default) c wc e
      (words ws ++ (words wt ++ (words we ++ r))))
    (separator : Transfers elseRequired .thenWord c ws () (words wt ++ (words we ++ r)))
    (thenBranch : Transfers elseRequired (.statementExpr valueRequired) c wt e₁ (words we ++ r))
    (elseBranch : Transfers elseRequired (.elseBranch valueRequired) c we e₂ r) :
    Transfers elseRequired (.conditional valueRequired) c
      (c.leaf k :: (wc ++ (ws ++ (wt ++ we)))) (.conditional e e₁ e₂ ()) r := by
  intro _ z r' hs
  obtain ⟨k', z, rfl, hk, hs⟩ := hs.leaf
  obtain ⟨wc', z, rfl, hc, hs⟩ := hs.append (hseparator.append (hthen.append helse))
  obtain ⟨ws', wt', we', rfl, hw, ht, he⟩ := hs.append₃ hthen helse
  simp only [words_append, List.append_assoc] at hc
  exact .conditional (hk.keyword?.trans word) (condition nofun hc) (separator nofun hw)
    (thenBranch nofun ht) (elseBranch nofun he)

/-! ### Declarations, calls, members, suffixes and operators -/

theorem declaration {n a : Token} {wt wv : List Leaf} {type : Option (Expr Unit)} {e : Expr Unit}
    (named : n.kind = .identifier) (colon : o.kind = .colon) (assignment : a.kind = .assignment)
    (declaredType : Transfers elseRequired .declaredType c wt type (a :: (words wv ++ r)))
    (value : Transfers elseRequired (.expr .default) c wv e r) :
    Transfers elseRequired .declaration c (c.leaf n :: c.leaf o :: (wt ++ c.leaf a :: wv))
      (.declaration n.value type e ()) r := by
  intro _ z r' hs
  obtain ⟨n', z, rfl, hn, hs⟩ := hs.leaf
  obtain ⟨o', z, rfl, ho, hs⟩ := hs.leaf
  obtain ⟨wt', a', wv', rfl, ha, ht, hv⟩ := hs.append_leaf
  rw [← hn.value]
  exact .declaration (hn.kind.trans named) (ho.kind.trans colon) (declaredType nofun ht)
    (ha.kind.trans assignment) (value nofun hv)

theorem call {base e : Expr Unit} {es : List (Expr Unit)} {comma : Bool}
    (sameLine : breaks c [o] = false) (opening : o.kind = .openParen) (hmore : c.Opens w)
    (arguments : Transfers elseRequired (.delimited .expr .closeParen) c u (es, comma)
      (words w ++ r))
    (more : Transfers elseRequired (.chain (.call base es ())) c w e r) :
    Transfers elseRequired (.chain base) c (c.leaf o :: (u ++ w)) e r := by
  intro _ z r' hs
  obtain ⟨o', z, rfl, ho, hs⟩ := hs.leaf
  obtain ⟨u', w', rfl, hu, hw⟩ := hs.append hmore
  exact .call (ho.breaks.trans sameLine) (ho.kind.trans opening) (arguments nofun hu)
    (more nofun hw)

theorem member {base e : Expr Unit} {n : Token} (sameLine : breaks c [o] = false)
    (point : o.kind = .dot) (field : Parse.isField n = true)
    (more : Transfers elseRequired (.chain (.member base n.value ())) c w e r) :
    Transfers elseRequired (.chain base) c (c.leaf o :: c.leaf n :: w) e r := by
  intro _ z r' hs
  obtain ⟨o', z, rfl, ho, hn⟩ := hs.leaf
  obtain ⟨n', w', rfl, hname, hw⟩ := hn.leaf
  have hmore := more nofun hw
  rw [← hname.value] at hmore
  exact .member (ho.breaks.trans sameLine) (ho.kind.trans point) ((hs.isField point).trans field)
    hmore

theorem suffix {base e : Expr Unit} {operator : SuffixOperator} (sameLine : breaks c [o] = false)
    (symbol : SuffixOperator.ofKind? o.kind = some operator)
    (noField : o.kind = .dot → isField (words w ++ r) = false)
    (more : Transfers elseRequired (.chain (.suffix base operator ())) c w e r) :
    Transfers elseRequired (.chain base) c (c.leaf o :: w) e r := by
  intro _ z r' hs
  obtain ⟨o', w', rfl, ho, hw⟩ := hs.leaf
  refine .suffix (ho.breaks.trans sameLine) (by rw [ho.kind, symbol]) (fun hpoint => ?_)
    (more nofun hw)
  have hpoint' : o.kind = .dot := ho.kind.symm.trans hpoint
  exact (hs.isField hpoint').trans (noField hpoint')

theorem binary {power : Power} {left right e : Expr Unit} {operator : BinaryOperator}
    (sameLine : breaks c [o] = false) (symbol : BinaryOperator.ofKind? o.kind = some operator)
    (tighter : ¬operator.level ≤ power) (hmore : c.Opens w)
    (operand : Transfers elseRequired (.expr operator.level) c u right (words w ++ r))
    (more : Transfers elseRequired (.operators power (.binary left operator right ())) c w e r) :
    Transfers elseRequired (.operators power left) c (c.leaf o :: (u ++ w)) e r := by
  intro _ z r' hs
  obtain ⟨o', z, rfl, ho, hs⟩ := hs.leaf
  obtain ⟨u', w', rfl, hu, hw⟩ := hs.append hmore
  exact .binary (ho.breaks.trans sameLine) (by rw [ho.kind, symbol]) tighter (operand nofun hu)
    (more nofun hw)

theorem expr {power : Power} {v : List Leaf} {first left e : Expr Unit} (hchain : c.Opens v)
    (hoperators : c.Opens w)
    (head : Transfers elseRequired .primary c u first (words v ++ (words w ++ r)))
    (chain : Transfers elseRequired (.chain first) c v left (words w ++ r))
    (operators : Transfers elseRequired (.operators power left) c w e r) :
    Transfers elseRequired (.expr power) c (u ++ (v ++ w)) e r := by
  intro _ z r' hs
  obtain ⟨u', v', w', rfl, hu, hv, hw⟩ := hs.append₃ hchain hoperators
  exact .expr (head nofun hu) (chain nofun hv) (operators nofun hw)

/-! ### Delimited lists -/

theorem entry {key value : Expr Unit} (colon : o.kind = .colon)
    (inner : Transfers elseRequired (.expr .default) c u key (o :: (words w ++ r)))
    (valueInner : Transfers elseRequired (.expr .default) c w value r) :
    Transfers elseRequired (.element .entry) c (u ++ c.leaf o :: w) ⟨key, value, ()⟩ r := by
  intro _ z r' hs
  obtain ⟨u', o', w', rfl, ho, hu, hw⟩ := hs.append_leaf
  exact .entry (inner nofun hu) (ho.kind.trans colon) (valueInner nofun hw)

theorem moreElements {slot : Slot} {close : TokenKind} {afterComma comma : Bool}
    {x : slot.Tree Unit} {xs : List (slot.Tree Unit)}
    (go : kind (words u ++ o :: (words w ++ r)) ≠ close) (separator : o.kind = .comma)
    (inner : Transfers elseRequired (.element slot) c u x (o :: (words w ++ r)))
    (more : Transfers elseRequired (.elements slot close true) c w (xs, comma) r) :
    Transfers elseRequired (.elements slot close afterComma) c (u ++ c.leaf o :: w)
      (x :: xs, comma) r := by
  intro _ z r' hs
  obtain ⟨u', o', w', rfl, ho, hu, hw⟩ := hs.append_leaf
  exact .moreElements (hu.kind ▸ go) (inner nofun hu) (ho.kind.trans separator) (more nofun hw)

theorem delimited {slot : Slot} {close : TokenKind} {es : List (slot.Tree Unit) × Bool}
    (closing : k.kind = close)
    (inner : Transfers elseRequired (.elements slot close false) .inside w es (k :: r)) :
    Transfers elseRequired (.delimited slot close) c (w ++ [Surroundings.inside.leaf k]) es r := by
  intro _ z r' hs
  obtain ⟨w', k', z, rfl, hk, hw, hs⟩ := hs.append_leaf
  obtain rfl := hs.eq_nil
  exact .delimited (inner nofun hw) (hk.kind.trans closing)

/-! ### Statements -/

theorem typeDefinition {n a : Token} {e : Expr Unit} (word : k.isKeyword .type = true)
    (named : n.kind = .identifier) (sameLine : n.newlineBefore = false)
    (assignment : a.kind = .assignment)
    (definition : Transfers elseRequired (.expr .default) c w e r) :
    Transfers elseRequired .content c (c.leaf k :: c.leaf n :: c.leaf a :: w)
      (.typeDefinition n.value e ()) r := by
  intro hline z r' hs
  obtain ⟨k', z, rfl, hk, hs⟩ := hs.leaf
  obtain ⟨n', z, rfl, hn, hs⟩ := hs.leaf
  obtain ⟨a', w', rfl, ha, hs⟩ := hs.leaf
  rw [← hn.value]
  exact .typeDefinition ((hk.isKeyword _).trans word) (hn.kind.trans named)
    ((hn.line (hline rfl)).trans sameLine) (ha.kind.trans assignment) (definition nofun hs)

theorem statement {close : TokenKind} {v : List Leaf} {s : Stmt Unit} {body : List (Stmt Unit)}
    (go : kind (words u ++ (words v ++ (words w ++ r))) ≠ close)
    (more : kind (words u ++ (words v ++ (words w ++ r))) ≠ .eof)
    (hterminator : c.Opens v) (hrest : c.Opens w)
    (content : Transfers elseRequired .content c u s (words v ++ (words w ++ r)))
    (terminator : Transfers elseRequired (.terminator close) c v () (words w ++ r))
    (rest : Transfers elseRequired (.statements close) c w body r) :
    Transfers elseRequired (.statements close) c (u ++ (v ++ w)) (s :: body) r := by
  intro hline z r' hs
  obtain ⟨u', v', w', rfl, hu, hv, hw⟩ := hs.append₃ hterminator hrest
  have hc : c.grouped = false := hline rfl
  exact .statement (hu.kind ▸ go) (hu.kind ▸ more) (content (fun _ => hc) hu)
    (terminator (fun _ => hc) hv) (rest hline hw)

end Transfers

/-- The leaves that take the places of those of a phrase make up the same phrase. The induction is
on the derivation. -/
theorem Derives.transfers {elseRequired : Bool} {p : Phrase} {c : Surroundings} {w : List Leaf}
    {v : p.Tree Unit} {r : List Token} (h : Derives elseRequired p c w v r) :
    Transfers elseRequired p c w v r := by
  induction h with
  | number kind value =>
    exact .leaf fun ht _ => .number (ht.kind.trans kind) (by rw [ht.value, value])
  | string kind => exact .leaf fun ht _ => ht.value ▸ .string (ht.kind.trans kind)
  | char kind value =>
    exact .leaf fun ht _ => .char (ht.kind.trans kind) (by rw [ht.value, value])
  | boolean value word => exact .leaf fun ht _ => .boolean value (ht.keyword?.trans word)
  | label plain =>
    exact .leaf fun ht hs => ht.value ▸ .label ((ht.plainLabel hs.kind_rest).trans plain)
  | grouping opening _ ih => exact .cons rfl ih fun ho => .grouping (ho.kind.trans opening)
  | tuple opening _ single ih =>
    exact .cons rfl ih fun ho h => .tuple (ho.kind.trans opening) h single
  | array opening _ ih => exact .cons rfl ih fun ho => .array (ho.kind.trans opening)
  | set word plain opening _ ih =>
    exact .cons_cons rfl ih fun hk ho =>
      .set (hk.keyword?.trans word) plain (ho.kind.trans opening)
  | mapping word plain opening _ ih =>
    exact .cons_cons rfl ih fun hk ho =>
      .mapping (hk.keyword?.trans word) plain (ho.kind.trans opening)
  | object opening _ ih => exact .cons rfl ih fun ho => .object (ho.kind.trans opening)
  | function word named opening _ returnType inner ihp iht ihb =>
    exact .function word named opening (returnType.opens rfl) (inner.opens rfl) ihp iht ihb
  | arrowBody arrow _ ih => exact .cons rfl ih fun ht => .arrowBody (ht.kind.trans arrow)
  | statementBody _ ih => exact .same rfl ih fun _ => .statementBody
  | block kind word plain _ ih =>
    exact .cons rfl ih fun hk => .block kind (hk.keyword?.trans word) plain
  | blockBody opening _ closing ih => exact .blockBody opening closing ih
  | conditionalValue _ ih => exact .same rfl ih fun _ => .conditionalValue
  | conditional word _ separator thenBranch elseBranch ihc ihs iht ihe =>
    exact .conditional word (separator.opens rfl) (thenBranch.opens rfl) (elseBranch.opens rfl)
      ihc ihs iht ihe
  | thenPresent word => exact .leaf fun ht _ => .thenPresent ((ht.isKeyword _).trans word)
  | thenAbsent absent => exact .nil fun hs => .thenAbsent ((hs.isKeyword _).trans absent)
  | elsePresent word _ ih =>
    exact .cons rfl ih fun ht => .elsePresent ((ht.isKeyword _).trans word)
  | elseAbsent absent allowed =>
    exact .nil fun hs => .elseAbsent ((hs.isKeyword _).trans absent) allowed
  | typePresent colon _ ih => exact .cons rfl ih fun ht => .typePresent (ht.kind.trans colon)
  | typeAbsent absent => exact .nil fun hs => .typeAbsent (hs.kind_rest ▸ absent)
  | declaredTypePresent _ ih => exact .same rfl ih fun _ => .declaredTypePresent
  | declaredTypeAbsent absent =>
    exact .nil fun hs => .declaredTypeAbsent (hs.kind_rest.trans absent)
  | declaration named colon _ assignment _ iht ihv =>
    exact .declaration named colon assignment iht ihv
  | update named updater _ ih =>
    exact .cons_cons rfl ih fun hn ho h =>
      hn.value ▸ .update (hn.kind.trans named) (by rw [ho.kind, updater]) h
  | chainEnd stop => exact .nil fun hs => .chainEnd (hs.endsChain.trans stop)
  | call sameLine opening _ more iha ihm =>
    exact .call sameLine opening (more.opens rfl) iha ihm
  | member sameLine point field _ ih => exact .member sameLine point field ih
  | suffix sameLine symbol noField _ ih => exact .suffix sameLine symbol noField ih
  | operatorsEnd stop => exact .nil fun hs => .operatorsEnd ((hs.endsOperators _).trans stop)
  | binary sameLine symbol tighter _ more iho ihm =>
    exact .binary sameLine symbol tighter (more.opens rfl) iho ihm
  | expr _ chain operators ihh ihc iho =>
    exact .expr (chain.opens rfl) (operators.opens rfl) ihh ihc iho
  | declared _ ih => exact .same rfl ih fun _ => .declared
  | updated _ ih => exact .same rfl ih fun _ => .updated
  | chosen noLabel _ ih => exact .same rfl ih fun hs => .chosen (hs.bindsLabel.trans noLabel)
  | plain noLabel noConditional _ ih =>
    exact .same rfl ih fun hs =>
      .plain (hs.bindsLabel.trans noLabel) ((hs.isKeyword _).trans noConditional)
  | element _ ih => exact .same rfl ih fun _ => .element
  | entry _ colon _ ihk ihv => exact .entry colon ihk ihv
  | field named colon _ ih =>
    exact .cons_cons rfl ih fun hn ho h =>
      hn.value ▸ .field (hn.kind.trans named) (ho.kind.trans colon) h
  | parameter named _ ih =>
    exact .cons rfl ih fun hn h => hn.value ▸ .parameter (hn.kind.trans named) h
  | noElement stop => exact .nil fun hs => .noElement (hs.kind_rest.trans stop)
  | lastElement go _ stop ih =>
    exact .same rfl ih fun hs h => .lastElement (hs.kind ▸ go) h (hs.kind_rest ▸ stop)
  | moreElements go _ separator _ ihx ihm => exact .moreElements go separator ihx ihm
  | delimited _ closing ih => exact .delimited closing ih
  | typeDefinition word named sameLine assignment _ ih =>
    exact .typeDefinition word named sameLine assignment ih
  | expression noType inner ih =>
    exact fun hline _ _ hs =>
      .expression (hs.definesType inner (hline rfl) noType) (ih nofun hs)
  | semicolon kind => exact .leaf fun ht _ => .semicolon (ht.kind.trans kind)
  | noSemicolon stop =>
    intro hline w' r' hs
    obtain rfl := hs.eq_nil
    exact .noSemicolon ((hs.endsStatement _ (hline rfl)).trans stop)
  | emptyStatement kind _ ih =>
    intro hline w' r' hs
    obtain ⟨t', w', rfl, ht, hs⟩ := hs.leaf
    exact .emptyStatement (ht.kind.trans kind) (ih hline hs)
  | noStatement stop noSemicolon =>
    exact .nil fun hs => .noStatement (hs.kind_rest.trans stop) noSemicolon
  | statement go more _ terminator rest ihc iht ihr =>
    exact .statement go more (terminator.opens rfl) (rest.opens rfl) ihc iht ihr

open Change in
/-- The tokens that take the places of the tokens of a phrase make up the same phrase. -/
theorem Derives.transfer {elseRequired : Bool} {p : Phrase} {c : Surroundings} {w : List Leaf}
    {v : p.Tree Unit} {r : List Token} {d f : List Change} (h : Derives elseRequired p c w v r)
    (hd : d.map before = w) (hr : f.map old = r) (hpoints : Points (d ++ f)) (hf : Follows c f)
    (hline : p.endsAtLine = true → c.grouped = false) :
    Derives elseRequired p c (d.map after) v (f.map new) :=
  h.transfers hline ⟨d, f, hd, rfl, hr, rfl, hpoints, hf⟩

end SurfaceGrammar

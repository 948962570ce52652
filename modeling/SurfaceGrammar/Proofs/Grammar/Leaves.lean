import SurfaceGrammar.Proofs.Grammar.Phrase
import SurfaceGrammar.Proofs.Token.Reads

/-!
# The first leaf of a phrase

* `Derives.starts`: an expression has a first leaf, of a kind with which expressions begin.
* `Derives.grouped_of_head?`: the first leaf of a phrase stands in the surroundings of the phrase.
-/

namespace SurfaceGrammar

/-- Whether a phrase has leaves and begins like an expression. -/
def Phrase.startsLikeExpr : Phrase → Bool
  | .primary | .conditional _ | .declaration | .update | .expr _ | .statementExpr _ | .element _
  | .content => true
  | _ => false

section Starts

variable {elseRequired : Bool} {p : Phrase} {c : Surroundings} {w : List Leaf} {v : p.Tree Unit}
  {r : List Token}

theorem mem_expressionStart_of_keyword? {t : Token} {keyword : Keyword}
    (h : t.keyword? = some keyword) : t.kind ∈ expressionStart := by
  rw [Token.kind_of_keyword? h]
  decide

theorem Token.kind_of_plainLabel {t : Token} (h : Lookahead.plainLabel c t r = true) :
    t.kind = .identifier := by
  simpa using (Bool.and_eq_true_iff.mp h).1

/-- An expression has a first leaf, of a kind with which expressions begin. -/
theorem Derives.starts (h : Derives elseRequired p c w v r) (hp : p.startsLikeExpr = true) :
    ∃ t u, w = c.leaf t :: u ∧ t.kind ∈ expressionStart := by
  induction h with
  | number kind _ | string kind | char kind _ => exact ⟨_, _, rfl, by rw [kind]; decide⟩
  | boolean value word => exact ⟨_, _, rfl, mem_expressionStart_of_keyword? word⟩
  | label plain => exact ⟨_, _, rfl, by rw [Token.kind_of_plainLabel plain]; decide⟩
  | grouping opening _ _ | tuple opening _ _ _ | array opening _ _ | object opening _ _ =>
    exact ⟨_, _, rfl, by rw [opening]; decide⟩
  | set word _ _ _ _ | mapping word _ _ _ _ | block _ word _ _ _ | function word _ _ _ _ _ _ _ _
  | conditional word _ _ _ _ _ _ _ _ => exact ⟨_, _, rfl, mem_expressionStart_of_keyword? word⟩
  | typeDefinition word _ _ _ _ _ =>
    exact ⟨_, _, rfl, mem_expressionStart_of_keyword? (Token.isKeyword_iff.mp word)⟩
  | declaration named _ _ _ _ _ _ | update named _ _ _ | field named _ _ _ | parameter named _ _ =>
    exact ⟨_, _, rfl, by rw [named]; decide⟩
  | conditionalValue _ ih | declared _ ih | updated _ ih | chosen _ _ ih | plain _ _ _ ih
  | element _ ih | expression _ _ ih => exact ih rfl
  | expr _ _ _ ih _ _ | entry _ _ _ ih _ =>
    obtain ⟨t, u, rfl, ht⟩ := ih rfl
    exact ⟨t, _, rfl, ht⟩
  | _ => cases hp

theorem Derives.ne_nil (h : Derives elseRequired p c w v r) (hp : p.startsLikeExpr = true) :
    w ≠ [] := by
  obtain ⟨t, u, rfl, -⟩ := h.starts hp
  exact List.cons_ne_nil _ _

theorem Derives.length_pos (h : Derives elseRequired p c w v r) (hp : p.startsLikeExpr = true) :
    0 < w.length :=
  List.length_pos_iff.mpr (h.ne_nil hp)

/-- An expression begins with a token of a kind with which expressions begin. -/
theorem Derives.kind_mem (h : Derives elseRequired p c w v r) (hp : p.startsLikeExpr = true) :
    Lookahead.kind (words w ++ r) ∈ expressionStart := by
  obtain ⟨t, u, rfl, ht⟩ := h.starts hp
  exact ht

end Starts

/-! ## Surroundings of the first leaf -/

section Head

variable {P : Leaf → Prop} {u v : List Leaf}

theorem forall_head?_append (hu : ∀ l ∈ u.head?, P l) (hv : ∀ l ∈ v.head?, P l) :
    ∀ l ∈ (u ++ v).head?, P l := by
  cases u with
  | nil => exact hv
  | cons => exact hu

end Head

/-- Whether a phrase begins in its own surroundings and not between delimiters that it only
closes. -/
def Phrase.beginsOutside : Phrase → Bool
  | .delimited _ _ => false
  | _ => true

/-- The first leaf of a phrase stands in the surroundings of the phrase. -/
theorem Derives.grouped_of_head? {elseRequired : Bool} {p : Phrase} {c : Surroundings}
    {w : List Leaf} {v : p.Tree Unit} {r : List Token} (h : Derives elseRequired p c w v r)
    (hp : p.beginsOutside = true) : ∀ l ∈ w.head?, l.grouped = c.grouped := by
  induction h with
  | delimited => cases hp
  | conditionalValue _ ih | statementBody _ ih | declared _ ih | updated _ ih | chosen _ _ ih
  | plain _ _ _ ih | element _ ih | expression _ _ ih | declaredTypePresent _ ih
  | lastElement _ _ _ ih => exact ih rfl
  | expr _ _ _ ihh ihc iho =>
    exact forall_head?_append (ihh rfl) (forall_head?_append (ihc rfl) (iho rfl))
  | statement _ _ _ _ _ ihc iht ihr =>
    exact forall_head?_append (ihc rfl) (forall_head?_append (iht rfl) (ihr rfl))
  | entry _ _ _ ih _ | moreElements _ _ _ _ ih _ =>
    exact forall_head?_append (ih rfl) (by simp)
  | _ => simp

/-! ## The leaf after a label -/

section Second

variable {elseRequired : Bool} {c : Surroundings} {t : Token} {u : List Leaf} {r : List Token}

/-- A primary expression that begins with the word `type` is a label. -/
theorem Derives.eq_nil_of_type {e : Expr Unit}
    (h : Derives elseRequired .primary c (c.leaf t :: u) e r) (ht : t.keyword? = some .type) :
    u = [] := by
  have hkind := Token.kind_of_keyword? ht
  cases h with
  | number _ _ | string _ | char _ _ | boolean _ _ | label _ => rfl
  | grouping opening _ | tuple opening _ _ | array opening _ | object opening _ =>
    rw [hkind] at opening
    cases opening
  | set word _ _ _ | mapping word _ _ _ | function word _ _ _ _ _ =>
    rw [ht] at word
    cases word
  | block kind word _ _ =>
    rw [ht] at word
    cases kind <;> cases word
  | conditionalValue inner =>
    cases inner with
    | conditional word _ _ _ _ =>
      rw [ht] at word
      cases word

/-- What follows a primary expression within an expression is no identifier. -/
theorem Derives.kind_of_chain {first e : Expr Unit} {power : Power} {left : Expr Unit}
    {l : Leaf} {v w : List Leaf} (hl : v ++ w = l :: u)
    (hv : Derives elseRequired (.chain first) c v left (words w ++ r))
    (hw : Derives elseRequired (.operators power left) c w e r) : l.token.kind ≠ .identifier := by
  intro hkind
  cases hv with
  | chainEnd _ =>
    rw [List.nil_append] at hl
    cases hw with
    | operatorsEnd _ => cases hl
    | binary _ symbol _ _ _ =>
      cases hl
      rw [Surroundings.token_leaf] at hkind
      rw [hkind] at symbol
      cases symbol
  | call _ opening _ _ =>
    cases hl
    rw [Surroundings.token_leaf, opening] at hkind
    cases hkind
  | member _ point _ _ =>
    cases hl
    rw [Surroundings.token_leaf, point] at hkind
    cases hkind
  | suffix _ symbol _ _ =>
    cases hl
    rw [Surroundings.token_leaf] at hkind
    rw [hkind] at symbol
    cases symbol

/-- Within an expression that begins with the word `type` no identifier follows the word. -/
theorem Derives.kind_of_second {valueRequired : Bool} {e : Expr Unit} {l : Leaf}
    (h : Derives elseRequired (.statementExpr valueRequired) c (c.leaf t :: l :: u) e r)
    (ht : t.keyword? = some .type) : l.token.kind ≠ .identifier := by
  have hword : t.keyword? ≠ some .if := by
    rw [ht]
    decide
  generalize hw : c.leaf t :: l :: u = w at h
  cases h with
  | declared inner =>
    cases inner with
    | declaration _ colon _ _ _ =>
      cases hw
      rw [Surroundings.token_leaf, colon]
      decide
  | updated inner =>
    cases inner with
    | update _ updater _ =>
      cases hw
      rw [Surroundings.token_leaf]
      intro hkind
      rw [hkind] at updater
      cases updater
  | chosen _ inner =>
    cases inner with
    | conditional word _ _ _ _ =>
      obtain ⟨hfirst, -⟩ := List.cons.inj hw
      cases hfirst
      exact absurd word hword
  | plain _ _ inner =>
    cases inner with
    | expr head chain operators =>
      obtain ⟨t', u', rfl, -⟩ := head.starts rfl
      obtain ⟨hfirst, hrest⟩ := List.cons.inj hw
      cases hfirst
      cases head.eq_nil_of_type ht
      have htail : _ ++ _ = l :: u := (List.nil_append _).symm.trans hrest.symm
      exact Derives.kind_of_chain htail chain operators

end Second

end SurfaceGrammar

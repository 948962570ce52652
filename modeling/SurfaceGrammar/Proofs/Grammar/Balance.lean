import SurfaceGrammar.Proofs.Grammar.Phrase
import SurfaceGrammar.Proofs.Tree.Nodes

/-!
# Parentheses in phrases

Every phrase closes the parentheses that it opens, and no others. A delimited list ends with the
delimiter that closes it, and what stands before that delimiter is balanced; so the parenthesis
with which a call ends is the one that belongs to the parenthesis with which its arguments begin.

* `Phrase.IsBalanced`: what holds of the parentheses among the tokens of a phrase.
* `Balanced.of_derives`: it holds of every phrase.
-/

namespace SurfaceGrammar

/-- The parentheses of a phrase close each other. Those of a delimited list do so but for the
delimiter at its end, which may be one. -/
def Phrase.IsBalanced : Phrase → List Token → Prop
  | .delimited _ close, ts => ∃ inside k, ts = inside ++ [k] ∧ k.kind = close ∧ Balanced inside
  | _, ts => Balanced ts

/-- Whether a kind is that of a parenthesis. -/
def TokenKind.isParen (kind : TokenKind) : Bool := kind = .openParen || kind = .closeParen

namespace Balanced

variable {t : Token} {ts : List Token} {kind : TokenKind} {keyword : Keyword}

/-- A token of a kind that is no parenthesis. -/
theorem cons_kind (h : t.kind = kind) (hkind : kind.isParen = false) (hts : Balanced ts) :
    Balanced (t :: ts) := by
  simp only [TokenKind.isParen, Bool.or_eq_false_iff, decide_eq_false_iff_not] at hkind
  exact .cons (h ▸ hkind.1) (h ▸ hkind.2) hts

theorem cons_word (h : t.keyword? = some keyword) (hts : Balanced ts) : Balanced (t :: ts) :=
  cons_kind (Token.kind_of_keyword? h) rfl hts

theorem cons_isKeyword (h : t.isKeyword keyword = true) (hts : Balanced ts) :
    Balanced (t :: ts) :=
  cons_word (Token.isKeyword_iff.mp h) hts

/-- A token that is an operator by a table which has no parentheses. -/
theorem cons_ofKind? {β : Type} {ofKind? : TokenKind → Option β} {operator : β}
    (h : ofKind? t.kind = some operator) (hopen : ofKind? .openParen = none)
    (hclose : ofKind? .closeParen = none) (hts : Balanced ts) : Balanced (t :: ts) := by
  refine .cons (fun hkind => ?_) (fun hkind => ?_) hts
  · rw [hkind, hopen] at h
    cases h
  · rw [hkind, hclose] at h
    cases h

/-- A delimited list that ends with a delimiter other than a parenthesis. -/
theorem of_delimited {slot : Slot} {close : TokenKind}
    (h : (Phrase.delimited slot close).IsBalanced ts)
    (hclose : close.isParen = false) : Balanced ts := by
  obtain ⟨inside, k, rfl, hkind, hinside⟩ := h
  exact hinside.append (cons_kind hkind hclose .nil)

/-- A delimited list in parentheses, with the opening one before it. -/
theorem of_parens {slot : Slot} (hopen : t.kind = .openParen)
    (h : (Phrase.delimited slot .closeParen).IsBalanced ts) : Balanced (t :: ts) := by
  obtain ⟨inside, k, rfl, hkind, hinside⟩ := h
  exact .group hopen hinside hkind .nil

/-- Every phrase closes the parentheses that it opens, and no others. -/
theorem of_derives {elseRequired : Bool} {p : Phrase} {c : Surroundings} {w : List Leaf}
    {v : p.Tree Unit} {r : List Token} (h : Derives elseRequired p c w v r) :
    p.IsBalanced (words w) := by
  induction h with
  | number kind => exact cons_kind kind rfl .nil
  | string kind => exact cons_kind kind rfl .nil
  | char kind => exact cons_kind kind rfl .nil
  | boolean value word => exact cons_word word .nil
  | label plain =>
    simp only [Lookahead.plainLabel, Bool.and_eq_true, decide_eq_true_eq] at plain
    exact cons_kind plain.1 rfl .nil
  | grouping opening _ ih => exact of_parens opening ih
  | tuple opening _ _ ih => exact of_parens opening ih
  | array opening _ ih => exact cons_kind opening rfl (of_delimited ih rfl)
  | set word _ opening _ ih => exact cons_word word (cons_kind opening rfl (of_delimited ih rfl))
  | mapping word _ opening _ ih =>
    exact cons_word word (cons_kind opening rfl (of_delimited ih rfl))
  | object opening _ ih => exact cons_kind opening rfl (of_delimited ih rfl)
  | @function c k o name wp wt wb ps comma type body r word named opening _ _ _ ihp iht ihb =>
    have hrest : Balanced (o :: (words wp ++ (words wt ++ words wb))) :=
      (of_parens opening ihp).append (iht.append ihb)
    cases name with
    | none => simpa [Phrase.IsBalanced] using cons_word word hrest
    | some n => simpa [Phrase.IsBalanced] using cons_word word (cons_kind (named n rfl) rfl hrest)
  | arrowBody arrow _ ih => exact cons_kind arrow rfl ih
  | block kind word _ _ ih => exact cons_word word ih
  | blockBody opening _ closing ih =>
    rw [words_cons, words_append]
    exact cons_kind opening rfl (ih.append (cons_kind closing rfl .nil))
  | conditional word _ _ _ _ ihc ihs iht ihe =>
    simpa [Phrase.IsBalanced] using cons_word word (ihc.append (ihs.append (iht.append ihe)))
  | thenPresent word => exact cons_isKeyword word .nil
  | elsePresent word _ ih => exact cons_isKeyword word ih
  | typePresent colon _ ih => exact cons_kind colon rfl ih
  | declaration named colon _ assignment _ iht ihv =>
    simpa [Phrase.IsBalanced] using
      cons_kind named rfl (cons_kind colon rfl (iht.append (cons_kind assignment rfl ihv)))
  | update named updater _ ih => exact cons_kind named rfl (cons_ofKind? updater rfl rfl ih)
  | call _ opening _ _ ihw ihv =>
    rw [words_cons, words_append]
    exact (of_parens opening ihw).append ihv
  | member _ point field _ ih =>
    simp only [Parse.isField, Bool.and_eq_true, decide_eq_true_eq] at field
    exact cons_kind point rfl (cons_kind field.1.1 rfl ih)
  | suffix _ symbol _ _ ih => exact cons_ofKind? symbol rfl rfl ih
  | binary _ symbol _ _ _ ihw ihv =>
    rw [words_cons, words_append]
    exact cons_ofKind? symbol rfl rfl (ihw.append ihv)
  | expr _ _ _ ihu ihv ihw => simpa [Phrase.IsBalanced] using ihu.append (ihv.append ihw)
  | entry _ colon _ ihv ihw => simpa [Phrase.IsBalanced] using ihv.append (cons_kind colon rfl ihw)
  | field named colon _ ih => exact cons_kind named rfl (cons_kind colon rfl ih)
  | parameter named _ ih => exact cons_kind named rfl ih
  | moreElements _ _ separator _ ihv ihw =>
    simpa [Phrase.IsBalanced] using ihv.append (cons_kind separator rfl ihw)
  | @delimited c slot close k w es r inner closing ih => exact ⟨words w, k, by simp, closing, ih⟩
  | typeDefinition word named _ assignment _ ih =>
    exact cons_isKeyword word (cons_kind named rfl (cons_kind assignment rfl ih))
  | semicolon kind => exact cons_kind kind rfl .nil
  | emptyStatement kind _ ih => exact cons_kind kind rfl ih
  | statement _ _ _ _ _ ihu ihv ihw => simpa [Phrase.IsBalanced] using ihu.append (ihv.append ihw)
  | thenAbsent | elseAbsent | typeAbsent | declaredTypeAbsent | chainEnd | operatorsEnd
  | noElement | noSemicolon | noStatement => exact .nil
  | statementBody _ ih | conditionalValue _ ih | declaredTypePresent _ ih | declared _ ih
  | updated _ ih | chosen _ _ ih | plain _ _ _ ih | element _ ih | lastElement _ _ _ ih
  | expression _ _ ih => exact ih

end Balanced

end SurfaceGrammar

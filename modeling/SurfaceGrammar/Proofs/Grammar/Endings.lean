import SurfaceGrammar.Proofs.Grammar.Heads
import SurfaceGrammar.Proofs.Grammar.Printing

/-!
# What may follow a statement

A phrase at the end of a source is read in the same way if a semicolon or a token on a new line
follows, unless it is one that the phrase takes up: an opening curly bracket behind a word that
opens a block, a set or a map, or the word `else` behind a conditional without such a branch. In
these cases the phrase can be continued with an empty pair of curly brackets or with a branch.

* `StandsApart`: a token with which no expression goes on, but for the two cases.
* `Continuation`: tokens with which a phrase may go on in the two cases.
* `TakesUp`: the phrase goes on so, if the token follows.
* `Resumes`, `Derives.resume`: a phrase in front of a token, or one that takes it up.
-/

namespace SurfaceGrammar

open Lookahead

/-! ## Tokens that stand apart -/

/-- The token is a semicolon or stands on a new line, and makes no declaration or update of a label
before it. -/
structure StandsApart (t : Token) : Prop where
  ends : t.kind = .semicolon ∨ t.newlineBefore = true
  noBinder : (t.kind = .colon || t.kind.isUpdater) = false

namespace StandsApart

variable {t : Token} {c : Surroundings} {l : Leaf} {u : List Leaf} {ts : List Token}

theorem stops (h : StandsApart t) (hc : c.grouped = false) (ts : List Token) :
    Stops c (t :: ts) := by
  obtain hkind | hline := h.ends
  · exact stops_of_isPause (by rw [kind_cons, hkind]; rfl)
  · have hbreaks : breaks c (t :: ts) = true := by simp [breaks, hc, hline]
    exact ⟨by rw [endsChain, hbreaks, Bool.true_or],
      fun power => by rw [endsOperators, hbreaks, Bool.true_or]⟩

theorem isField (h : StandsApart t) : Parse.isField t = false := by
  obtain hkind | hline := h.ends
  · have hfield : Lookahead.isField [t] = false :=
      isField_of_kind (by rw [kind_cons, hkind]; decide)
    exact hfield
  · simp [Parse.isField, hline]

/-- A token that stands apart binds no label before it. -/
theorem bindsLabel (h : StandsApart t) (hs : bindsLabel (words (l :: u) ++ []) = false) :
    Lookahead.bindsLabel (words (l :: u) ++ t :: ts) = false := by
  cases u with
  | nil =>
    change (_ && (t.kind = .colon || t.kind.isUpdater)) = false
    rw [h.noBinder, Bool.and_false]
  | cons m u => exact hs

/-- A token that stands apart is no name that the word `type` before it defines. -/
theorem definesType (h : StandsApart t) (hs : definesType (words (l :: u) ++ []) = false) :
    Lookahead.definesType (words (l :: u) ++ t :: ts) = false := by
  cases u with
  | nil =>
    rw [Bool.eq_false_iff, ne_eq]
    intro hdefines
    obtain ⟨-, hkind, hline⟩ := definesType_cons_iff.mp hdefines
    obtain hsemicolon | hbreak := h.ends
    · cases hsemicolon.symm.trans hkind
    · cases hbreak.symm.trans hline
  | cons m u => exact hs

end StandsApart

/-! ## Continuations -/

/-- Tokens with which a phrase may go on on the next line: an empty pair of curly brackets, and the
word `else` with a label. -/
structure Continuation where
  opening : Token
  closing : Token
  word : Token
  label : Token
  openingKind : opening.kind = .openCurly
  openingLine : opening.newlineBefore = true
  closingKind : closing.kind = .closeCurly
  wordKeyword : word.isKeyword .else = true
  wordLine : word.newlineBefore = true
  labelKind : label.kind = .identifier
  labelKeyword : label.keyword? = none

namespace Continuation

variable {K : Continuation} {t : Token} {us : List Token}

/-- The tokens with which a phrase may go on that takes up the token. -/
def after (K : Continuation) (t : Token) : Option (List Token) :=
  if t.kind = .openCurly then some [K.opening, K.closing]
  else if t.isKeyword .else = true then some [K.word, K.label]
  else none

theorem kind_word : K.word.kind = .identifier :=
  Token.kind_of_keyword? (Token.isKeyword_iff.mp K.wordKeyword)

theorem after_of_curly (h : t.kind = .openCurly) : K.after t = some [K.opening, K.closing] :=
  if_pos h

theorem after_of_else (h : t.isKeyword .else = true) : K.after t = some [K.word, K.label] := by
  have hkind := Token.kind_of_keyword? (Token.isKeyword_iff.mp h)
  rw [after, if_neg (by rw [hkind]; decide), if_pos h]

/-- The tokens begin with one that stands apart and is taken up in the same way. -/
theorem exists_head (h : K.after t = some us) :
    ∃ o ts, us = o :: ts ∧ StandsApart o ∧ K.after o = some us := by
  unfold after at h
  split at h
  · cases h
    exact ⟨_, _, rfl, ⟨.inr K.openingLine, by rw [K.openingKind]; rfl⟩,
      after_of_curly K.openingKind⟩
  · split at h
    · cases h
      exact ⟨_, _, rfl, ⟨.inr K.wordLine, by rw [kind_word]; rfl⟩, after_of_else K.wordKeyword⟩
    · cases h

end Continuation

/-- The phrase can be continued with the tokens that begin like the token. -/
def TakesUp (K : Continuation) (elseRequired : Bool) (p : Phrase) (c : Surroundings) (w : List Leaf)
    (t : Token) : Prop :=
  ∃ u v, K.after t = some (words u) ∧ Derives elseRequired p c (w ++ u) v []

theorem TakesUp.intro {K : Continuation} {elseRequired : Bool} {p : Phrase} {c : Surroundings}
    {w w' u : List Leaf} {v : p.Tree Unit} {t : Token} (hu : K.after t = some (words u))
    (h : Derives elseRequired p c w' v []) (hw : w' = w ++ u) : TakesUp K elseRequired p c w t :=
  ⟨u, v, hu, hw ▸ h⟩

/-! ## Phrases at the end -/

/-- Whether the end of a phrase depends on the token that follows. -/
def Phrase.endsOpen : Phrase → Bool
  | .primary | .conditional _ | .elseBranch _ | .declaration | .update | .functionBody | .chain _
  | .operators _ _ | .expr _ | .statementExpr _ | .content => true
  | _ => false

/-- Whether a phrase with these leaves may take up a token. Calls, members and suffixes do not. -/
def Phrase.mayTakeUp (w : List Leaf) : Phrase → Prop
  | .chain _ => False
  | .operators _ _ => w ≠ []
  | _ => True

section Resume

variable {elseRequired : Bool} {K : Continuation} {c : Surroundings} {t : Token}

theorem stops_nil : Stops c [] := stops_of_isPause rfl

/-- An empty block. -/
theorem Derives.emptyBlock {o k : Token} {r : List Token} (ho : o.kind = .openCurly)
    (hk : k.kind = .closeCurly) :
    Derives elseRequired .blockBody c [c.leaf o, c.block.leaf k] [] r :=
  .blockBody ho (.noStatement hk (by decide)) hk

/-- An empty list between curly brackets. -/
theorem Derives.emptyCurly {slot : Slot} {k : Token} {r : List Token} (hk : k.kind = .closeCurly) :
    Derives elseRequired (.delimited slot .closeCurly) c [Surroundings.inside.leaf k] ([], false)
      r :=
  .delimited (.noElement hk) hk

/-- A label of its own stays one, or it opens a pair of curly brackets that follows. -/
theorem plainLabel_or_takesUp (elseRequired : Bool) (K : Continuation) (t : Token) {l : Token}
    (hl : plainLabel c l [] = true) :
    plainLabel c l [t] = true ∨ TakesUp K elseRequired .primary c [c.leaf l] t := by
  by_cases hcurly : t.kind = .openCurly
  · have hafter := K.after_of_curly hcurly
    have hplain := (Bool.and_eq_true_iff.mp hl).2
    have hkind := Token.kind_of_plainLabel hl
    by_cases hreturn : c.returnType = true
    · refine .inl ?_
      simpa [plainLabel, hreturn, hcurly] using hl
    · rw [Bool.not_eq_true] at hreturn
      have hblock (kind : BlockKind) (hword : l.keyword? = some kind.keyword) :
          TakesUp K elseRequired .primary c [c.leaf l] t :=
        ⟨[c.leaf K.opening, c.block.leaf K.closing], _, hafter,
          .block kind hword hreturn (.emptyBlock K.openingKind K.closingKind)⟩
      cases hword : l.keyword? with
      | none => exact .inl (by simp [plainLabel, hkind, hword])
      | some keyword =>
        cases keyword
        case type => exact .inl (by simp [plainLabel, hkind, hword])
        case «do» => exact .inr (hblock .do hword)
        case scope => exact .inr (hblock .scope hword)
        case set =>
          exact .inr ⟨[c.leaf K.opening, Surroundings.inside.leaf K.closing], _, hafter,
            .set hword hreturn K.openingKind (.emptyCurly K.closingKind)⟩
        case map =>
          exact .inr ⟨[c.leaf K.opening, Surroundings.inside.leaf K.closing], _, hafter,
            .mapping hword hreturn K.openingKind (.emptyCurly K.closingKind)⟩
        all_goals rw [hword] at hplain; cases hplain
  · refine .inl ?_
    simpa [plainLabel, hcurly] using hl

/-- The continuation of a conditional is a branch. -/
theorem takesUp_else (K : Continuation) {valueRequired : Bool} (ht : t.isKeyword .else = true) :
    TakesUp K elseRequired (.elseBranch valueRequired) c [] t := by
  have hplain : plainLabel c K.label [] = true := by
    simp [plainLabel, K.labelKind, K.labelKeyword]
  have hlabel : Derives elseRequired (.statementExpr valueRequired) c [c.leaf K.label]
      (.label K.label.value ()) [] := by
    refine .plain ?_ ?_ (.expr (.label hplain) (.chainEnd stops_nil.chain)
      (.operatorsEnd (stops_nil.operators _)))
    · simp [bindsLabel, TokenKind.isUpdater]
    · simp [Token.isKeyword, K.labelKeyword]
  exact ⟨[c.leaf K.word, c.leaf K.label], _, K.after_of_else ht, .elsePresent K.wordKeyword hlabel⟩

/-- With a continuation no label is bound. -/
theorem bindsLabel_of_after {l : Leaf} {u x : List Leaf} (hx : K.after t = some (words x))
    (h : bindsLabel (words (l :: u) ++ []) = false) :
    bindsLabel (words (l :: u ++ x) ++ []) = false := by
  obtain ⟨o, ts, htokens, ho, -⟩ := K.exists_head hx
  rw [List.append_nil, words_append, htokens]
  exact ho.bindsLabel h

/-- With a continuation no type is defined. -/
theorem definesType_of_after {l : Leaf} {u x : List Leaf} (hx : K.after t = some (words x))
    (h : definesType (words (l :: u) ++ []) = false) :
    definesType (words (l :: u ++ x) ++ []) = false := by
  obtain ⟨o, ts, htokens, ho, -⟩ := K.exists_head hx
  rw [List.append_nil, words_append, htokens]
  exact ho.definesType h

theorem Derives.functionBody_ne_nil {w : List Leaf} {body : Body Unit} {r : List Token}
    (h : Derives elseRequired .functionBody c w body r) : w ≠ [] := by
  cases h with
  | arrowBody _ _ => exact List.cons_ne_nil _ _
  | statementBody inner =>
    cases inner with
    | blockBody _ _ _ => exact List.cons_ne_nil _ _

end Resume

/-- A phrase at the end of a source is read in the same way in front of the token, or it takes up the
token. -/
def Resumes (K : Continuation) (elseRequired : Bool) (p : Phrase) (c : Surroundings)
    (w : List Leaf) (v : p.Tree Unit) (t : Token) : Prop :=
  Derives elseRequired p c w v [t] ∨ p.mayTakeUp w ∧ TakesUp K elseRequired p c w t

namespace Resumes

variable {elseRequired : Bool} {K : Continuation} {p q : Phrase} {c : Surroundings} {t k o : Token}
  {u v w : List Leaf}

/-- A phrase of which another one is the last part, whatever follows. -/
theorem of_last {y : q.Tree Unit} {f : q.Tree Unit → p.Tree Unit} (pre : List Leaf)
    (h : Resumes K elseRequired q c w y t)
    (hf : ∀ {w' y' r}, Derives elseRequired q c w' y' r →
      Derives elseRequired p c (pre ++ w') (f y') r) (hp : p.mayTakeUp (pre ++ w)) :
    Resumes K elseRequired p c (pre ++ w) (f y) t := by
  obtain hsame | ⟨-, x, y', hx, htaken⟩ := h
  · exact .inl (hf hsame)
  · exact .inr ⟨hp, .intro hx (hf htaken) (List.append_assoc pre w x).symm⟩

theorem function {name : Option Token} {wp wt wb : List Leaf} {ps : List (Parameter Unit)}
    {comma : Bool} {type : Option (Expr Unit)} {body : Body Unit} (word : k.keyword? = some .fn)
    (named : ∀ n ∈ name, n.kind = .identifier) (opening : o.kind = .openParen)
    (parameters : Derives elseRequired (.delimited .parameter .closeParen) c wp (ps, comma)
      (words wt ++ (words wb ++ [])))
    (returnType : Derives elseRequired .typeAfterColon (c.typing true) wt type (words wb ++ []))
    (inner : Derives elseRequired .functionBody (c.typing false) wb body [])
    (h : Resumes K elseRequired .functionBody (c.typing false) wb body t) :
    Resumes K elseRequired .primary c
      (c.leaf k :: (name.toList.map c.leaf ++ c.leaf o :: (wp ++ (wt ++ wb))))
      (.function (name.map Token.value) ps type body ()) t := by
  obtain ⟨l, u, rfl⟩ := List.exists_cons_of_ne_nil inner.functionBody_ne_nil
  obtain hinner | ⟨-, x, body', hx, hinner⟩ := h
  · exact .inl (.function word named opening (parameters.closed _) (returnType.behind _) hinner)
  · exact .inr ⟨trivial, .intro hx (.function word named opening (parameters.closed _)
      (returnType.behind _) hinner) (by simp)⟩

/-- The first branch goes on in front of the second one. If there is no second one, it may take up
a token itself, or be in front of a second one with which the conditional goes on. -/
theorem conditional {valueRequired : Bool} {wc ws wt we : List Leaf} {e e₁ : Expr Unit}
    {e₂ : Option (Expr Unit)} (word : k.keyword? = some .if) (ht : StandsApart t)
    (condition : Derives elseRequired (.expr .default) c wc e
      (words ws ++ (words wt ++ (words we ++ []))))
    (separator : Derives elseRequired .thenWord c ws () (words wt ++ (words we ++ [])))
    (thenBranch : Derives elseRequired (.statementExpr valueRequired) c wt e₁ (words we ++ []))
    (elseBranch : Derives elseRequired (.elseBranch valueRequired) c we e₂ [])
    (hthen : words we ++ [] = [] → ∀ {t}, StandsApart t →
      Resumes K elseRequired (.statementExpr valueRequired) c wt e₁ t)
    (helse : Resumes K elseRequired (.elseBranch valueRequired) c we e₂ t) :
    Resumes K elseRequired (.conditional valueRequired) c
      (c.leaf k :: (wc ++ (ws ++ (wt ++ we)))) (.conditional e e₁ e₂ ()) t := by
  obtain ⟨l, u, rfl, -⟩ := thenBranch.starts rfl
  cases we with
  | cons m we =>
    obtain helse | ⟨-, x, e₂', hx, helse⟩ := helse
    · exact .inl (.conditional word (condition.behind_append _) (separator.behind _)
        (thenBranch.behind _) helse)
    · exact .inr ⟨trivial, .intro hx (.conditional word (condition.behind_append _)
        (separator.behind _) (thenBranch.behind _) helse) (by simp)⟩
  | nil =>
    have htaken {x : List Leaf} {e₁' : Expr Unit} (hx : K.after t = some (words x))
        (h : Derives elseRequired (.statementExpr valueRequired) c (c.leaf l :: u ++ x) e₁' []) :
        TakesUp K elseRequired (.conditional valueRequired) c
          (c.leaf k :: (wc ++ (ws ++ (c.leaf l :: u ++ [])))) t :=
      .intro hx (.conditional word (condition.behind_append _) (separator.behind _) h elseBranch)
        (by simp)
    obtain helse | ⟨-, x, e₂', hx, helse⟩ := helse
    · obtain hfirst | ⟨-, x, e₁', hx, hfirst⟩ := hthen rfl ht
      · exact .inl (.conditional word (condition.behind_append _) (separator.behind _) hfirst
          helse)
      · exact .inr ⟨trivial, htaken hx hfirst⟩
    · obtain ⟨o, ts, htokens, ho, hafter⟩ := K.exists_head hx
      obtain hfirst | ⟨-, x', e₁', hx', hfirst⟩ := hthen rfl ho
      · have hfirst' : Derives elseRequired (.statementExpr valueRequired) c (c.leaf l :: u) e₁
            (words ([] ++ x) ++ []) := by
          rw [List.nil_append, htokens]
          exact hfirst.behind _
        exact .inr ⟨trivial, .intro hx (.conditional word (condition.behind_append _)
          (separator.behind _) hfirst' helse) (by simp)⟩
      · exact .inr ⟨trivial, htaken (hx.trans (hafter.symm.trans hx')) hfirst⟩

theorem declaration {n a : Token} {type : Option (Expr Unit)} {e : Expr Unit}
    (named : n.kind = .identifier) (colon : o.kind = .colon)
    (declaredType : Derives elseRequired .declaredType c v type (a :: (words w ++ [])))
    (assignment : a.kind = .assignment) (h : Resumes K elseRequired (.expr .default) c w e t) :
    Resumes K elseRequired .declaration c (c.leaf n :: c.leaf o :: (v ++ c.leaf a :: w))
      (.declaration n.value type e ()) t := by
  obtain hvalue | ⟨-, x, e', hx, hvalue⟩ := h
  · exact .inl (.declaration named colon (declaredType.behind _) assignment hvalue)
  · exact .inr ⟨trivial, .intro hx (.declaration named colon (declaredType.behind _)
      assignment hvalue) (by simp)⟩

/-- The operators after the operand take up the token, or the operand does if there are none. -/
theorem binary {power : Power} {left right e : Expr Unit} {operator : BinaryOperator}
    (sameLine : breaks c [o] = false) (symbol : BinaryOperator.ofKind? o.kind = some operator)
    (tighter : ¬operator.level ≤ power)
    (operand : Derives elseRequired (.expr operator.level) c w right (words v ++ []))
    (hoperand : words v ++ [] = [] → Resumes K elseRequired (.expr operator.level) c w right t)
    (hmore : Resumes K elseRequired (.operators power (.binary left operator right ())) c v e t) :
    Resumes K elseRequired (.operators power left) c (c.leaf o :: (w ++ v)) e t := by
  obtain hmore | ⟨hv, x, e', hx, hmore⟩ := hmore
  · cases v with
    | nil =>
      obtain hoperand | ⟨-, x, right', hx, hoperand⟩ := hoperand rfl
      · exact .inl (.binary sameLine symbol tighter hoperand hmore)
      · exact .inr ⟨List.cons_ne_nil _ _, .intro hx (.binary sameLine symbol tighter hoperand
          (.operatorsEnd (stops_nil.operators _))) (by simp)⟩
    | cons l v => exact .inl (.binary sameLine symbol tighter (operand.behind _) hmore)
  · obtain ⟨l, v, rfl⟩ := List.exists_cons_of_ne_nil hv
    exact .inr ⟨List.cons_ne_nil _ _, .intro hx (.binary sameLine symbol tighter
      (operand.behind _) hmore) (by simp)⟩

/-- The operators take up the token, or the head does if there is nothing after it. -/
theorem expr {power : Power} {first left e : Expr Unit}
    (head : Derives elseRequired .primary c u first (words v ++ (words w ++ [])))
    (chain : Derives elseRequired (.chain first) c v left (words w ++ []))
    (hhead : words v ++ (words w ++ []) = [] → Resumes K elseRequired .primary c u first t)
    (hchain : words w ++ [] = [] → Resumes K elseRequired (.chain first) c v left t)
    (hoperators : Resumes K elseRequired (.operators power left) c w e t) :
    Resumes K elseRequired (.expr power) c (u ++ (v ++ w)) e t := by
  obtain hoperators | ⟨hw, x, e', hx, hoperators⟩ := hoperators
  · cases w with
    | nil =>
      obtain hchain | ⟨hopen, -⟩ := hchain rfl
      · cases v with
        | nil =>
          obtain hhead | ⟨-, x, first', hx, hhead⟩ := hhead rfl
          · exact .inl (.expr hhead hchain hoperators)
          · exact .inr ⟨trivial, .intro hx (.expr hhead (.chainEnd stops_nil.chain)
              (.operatorsEnd (stops_nil.operators _))) (by simp)⟩
        | cons l v => exact .inl (.expr (head.behind _) hchain hoperators)
      · exact hopen.elim
    | cons l w => exact .inl (.expr (head.behind_append _) (chain.behind _) hoperators)
  · obtain ⟨l, w, rfl⟩ := List.exists_cons_of_ne_nil hw
    exact .inr ⟨trivial, .intro hx (.expr (head.behind_append _) (chain.behind _) hoperators)
      (by simp)⟩

end Resumes

/-- A phrase at the end of a source is read in the same way in front of a token that stands apart,
or it takes up the token. The induction is on the derivation; the part of the phrase that stands
last decides, and those before it only see what it begins with. -/
theorem Derives.resume (K : Continuation) {elseRequired : Bool} {p : Phrase} {c : Surroundings}
    {w : List Leaf} {v : p.Tree Unit} {r : List Token} (h : Derives elseRequired p c w v r)
    (hr : r = []) (hc : c.grouped = false) (hp : p.endsOpen = true) {t : Token}
    (ht : StandsApart t) : Resumes K elseRequired p c w v t := by
  induction h generalizing t with
  | number kind value => exact .inl (.number kind value)
  | string kind => exact .inl (.string kind)
  | char kind value => exact .inl (.char kind value)
  | boolean value word => exact .inl (.boolean value word)
  | label plain =>
    subst hr
    obtain hplain | htakes := plainLabel_or_takesUp elseRequired K t plain
    · exact .inl (.label hplain)
    · exact .inr ⟨trivial, htakes⟩
  | grouping opening inner ih => exact .inl (.grouping opening (inner.closed _))
  | tuple opening inner single ih => exact .inl (.tuple opening (inner.closed _) single)
  | array opening inner ih => exact .inl (.array opening (inner.closed _))
  | set word plain opening inner ih => exact .inl (.set word plain opening (inner.closed _))
  | mapping word plain opening inner ih => exact .inl (.mapping word plain opening (inner.closed _))
  | object opening inner ih => exact .inl (.object opening (inner.closed _))
  | function word named opening parameters returnType inner ihp iht ihb =>
    subst hr
    exact .function word named opening parameters returnType inner (ihb rfl hc rfl ht)
  | @arrowBody c o w e r arrow value ih =>
    exact .of_last [c.leaf o] (ih hr hc rfl ht) (.arrowBody arrow) trivial
  | statementBody inner ih => exact .inl (.statementBody (inner.closedBody _))
  | block kind word plain inner ih => exact .inl (.block kind word plain (inner.closedBody _))
  | conditionalValue inner ih => exact .of_last [] (ih hr hc rfl ht) .conditionalValue trivial
  | conditional word condition separator thenBranch elseBranch ihc ihs iht ihe =>
    subst hr
    exact .conditional word ht condition separator thenBranch elseBranch
      (fun hnone _ ho => iht hnone hc rfl ho) (ihe rfl hc rfl ht)
  | @elsePresent c o valueRequired w e r word branch ih =>
    exact .of_last [c.leaf o] (ih hr hc rfl ht) (.elsePresent word) trivial
  | elseAbsent absent allowed =>
    by_cases hword : t.isKeyword .else = true
    · exact .inr ⟨trivial, takesUp_else K hword⟩
    · exact .inl (.elseAbsent (by simpa using hword) allowed)
  | declaration named colon declaredType assignment value iht ihv =>
    subst hr
    exact .declaration named colon declaredType assignment (ihv rfl hc rfl ht)
  | @update c n o operator w e r named updater value ih =>
    exact .of_last [c.leaf n, c.leaf o] (ih hr hc rfl ht) (.update named updater) trivial
  | chainEnd stop => exact .inl (.chainEnd (ht.stops hc []).chain)
  | call sameLine opening arguments more iha ihm =>
    obtain hmore | ⟨hopen, -⟩ := ihm hr hc rfl ht
    · exact .inl (.call sameLine opening (arguments.closed _) hmore)
    · exact hopen.elim
  | member sameLine point field more ih =>
    obtain hmore | ⟨hopen, -⟩ := ih hr hc rfl ht
    · exact .inl (.member sameLine point field hmore)
    · exact hopen.elim
  | @suffix c base o operator v e r sameLine symbol noField more ih =>
    subst hr
    obtain hmore | ⟨hopen, -⟩ := ih rfl hc rfl ht
    · refine .inl (.suffix sameLine symbol (fun hpoint => ?_) hmore)
      cases v with
      | nil => exact ht.isField
      | cons l v => exact noField hpoint
    · exact hopen.elim
  | operatorsEnd stop => exact .inl (.operatorsEnd ((ht.stops hc []).operators _))
  | binary sameLine symbol tighter operand more iho ihm =>
    subst hr
    exact .binary sameLine symbol tighter operand (fun hnone => iho hnone hc rfl ht)
      (ihm rfl hc rfl ht)
  | expr head chain operators ihh ihc iho =>
    subst hr
    exact .expr head chain (fun hnone => ihh hnone hc rfl ht) (fun hnone => ihc hnone hc rfl ht)
      (iho rfl hc rfl ht)
  | declared inner ih => exact .of_last [] (ih hr hc rfl ht) .declared trivial
  | updated inner ih => exact .of_last [] (ih hr hc rfl ht) .updated trivial
  | chosen noLabel inner ih =>
    subst hr
    obtain ⟨l, u, rfl, -⟩ := inner.starts rfl
    obtain hinner | ⟨-, x, e', hx, hinner⟩ := ih rfl hc rfl ht
    · exact .inl (.chosen (ht.bindsLabel noLabel) hinner)
    · exact .inr ⟨trivial, x, e', hx, .chosen (bindsLabel_of_after hx noLabel) hinner⟩
  | plain noLabel noConditional inner ih =>
    subst hr
    obtain ⟨l, u, rfl, -⟩ := inner.starts rfl
    obtain hinner | ⟨-, x, e', hx, hinner⟩ := ih rfl hc rfl ht
    · exact .inl (.plain (ht.bindsLabel noLabel) noConditional hinner)
    · exact .inr ⟨trivial, x, e', hx, .plain (bindsLabel_of_after hx noLabel) noConditional hinner⟩
  | @typeDefinition c k n a w e r word named sameLine assignment definition ih =>
    exact .of_last [c.leaf k, c.leaf n, c.leaf a] (ih hr hc rfl ht)
      (.typeDefinition word named sameLine assignment) trivial
  | expression noType inner ih =>
    subst hr
    obtain ⟨l, u, rfl, -⟩ := inner.starts rfl
    obtain hinner | ⟨-, x, e', hx, hinner⟩ := ih rfl hc rfl ht
    · exact .inl (.expression (ht.definesType noType) hinner)
    · exact .inr ⟨trivial, x, _, hx, .expression (definesType_of_after hx noType) hinner⟩
  | _ => cases hp

/-! ## Statements -/

section Statements

variable {elseRequired : Bool} {K : Continuation} {c : Surroundings} {t : Token} {ts : List Token}
  {w u v : List Leaf} {body more : List (Stmt Unit)}

/-- What separates two statements may stand before the second one. -/
theorem Derives.after_terminator (hu : Derives elseRequired (.terminator .eof) c u () (words v))
    (hv : Derives elseRequired (.statements .eof) c v more []) :
    Derives elseRequired (.statements .eof) c (u ++ v) more [] := by
  cases hu with
  | semicolon kind => exact .emptyStatement kind hv
  | noSemicolon _ => exact hv

theorem Derives.eq_nil_of_statements (h : Derives elseRequired (.statements .eof) c [] body []) :
    body = [] := by
  generalize hw : ([] : List Leaf) = w at h
  cases h with
  | emptyStatement _ _ => cases hw
  | noStatement _ _ => rfl
  | statement _ _ content _ _ =>
    obtain ⟨l, u, rfl, -⟩ := content.starts rfl
    cases hw

/-- A statement of a source with those after it. -/
theorem Derives.statement_cons {l : Leaf} {s : Stmt Unit} (hl : l.token.kind ≠ .eof)
    (content : Derives elseRequired .content c (l :: w) s (words u ++ (words v ++ [])))
    (terminator : Derives elseRequired (.terminator .eof) c u () (words v ++ []))
    (rest : Derives elseRequired (.statements .eof) c v body []) :
    Derives elseRequired (.statements .eof) c (l :: w ++ (u ++ v)) (s :: body) [] :=
  .statement hl hl content terminator rest

/-- The statements of a source and, behind what separates them, others whose first token stands
apart: they are read one after another, or the last of the first ones takes up the token. The
induction is on the number of leaves. -/
theorem Derives.statements_append (K : Continuation) (hc : c.grouped = false)
    (h : Derives elseRequired (.statements .eof) c w body [])
    (hu : Derives elseRequired (.terminator .eof) c u () (words v))
    (hv : Derives elseRequired (.statements .eof) c v more []) (htokens : words (u ++ v) = t :: ts)
    (ht : StandsApart t) :
    Derives elseRequired (.statements .eof) c (w ++ (u ++ v)) (body ++ more) [] ∨
      w ≠ [] ∧ ∃ x body', K.after t = some (words x) ∧ body'.length = body.length ∧
        Derives elseRequired (.statements .eof) c (w ++ x) body' [] := by
  induction hn : w.length using Nat.strongRecOn generalizing w body with
  | ind n ih =>
    cases h with
    | @emptyStatement _ _ s w _ _ kind rest =>
      obtain hrest | ⟨-, x, body', hx, hlength, hrest⟩ := ih w.length (by simp [← hn]) rest rfl
      · exact .inl (.emptyStatement kind hrest)
      · exact .inr ⟨List.cons_ne_nil _ _, x, body', hx, hlength, .emptyStatement kind hrest⟩
    | noStatement _ _ => exact .inl (hu.after_terminator hv)
    | @statement _ _ u' v' w' s body' _ go notEnd content terminator rest =>
      obtain ⟨l, u', rfl, -⟩ := content.starts rfl
      obtain hrest | ⟨hw', x, body', hx, hlength, hrest⟩ := ih w'.length
        (by simp [← hn]; omega) rest rfl
      · cases w' with
        | nil =>
          cases v' with
          | nil =>
            cases rest.eq_nil_of_statements
            obtain hcontent | ⟨-, x, s', hx, hcontent⟩ := content.resume K rfl hc rfl ht
            · refine .inl ?_
              have hfirst : Derives elseRequired .content c (c.leaf l :: u') s
                  (words u ++ (words v ++ [])) := by
                rw [List.append_nil, ← words_append, htokens]
                exact hcontent.behind ts
              have hu' : Derives elseRequired (.terminator .eof) c u () (words v ++ []) := by
                rwa [List.append_nil]
              simpa using Derives.statement_cons notEnd hfirst hu' hv
            · refine .inr ⟨List.cons_ne_nil _ _, x, [s'], hx, rfl, ?_⟩
              have hfirst : Derives elseRequired .content c (c.leaf l :: (u' ++ x)) s'
                  (words [] ++ (words [] ++ [])) := hcontent
              simpa using Derives.statement_cons notEnd hfirst terminator rest
          | cons m v' =>
            -- a semicolon of its own ends the statement
            refine .inl ?_
            cases terminator with
            | semicolon kind =>
              have hfirst := Derives.statement_cons notEnd (content.behind _) (.semicolon kind)
                hrest
              simpa using hfirst
        | cons m w' =>
          refine .inl ?_
          have hfirst := Derives.statement_cons notEnd (content.behind_append _)
            (terminator.behind _) hrest
          simpa using hfirst
      · obtain ⟨m, w', rfl⟩ := List.exists_cons_of_ne_nil hw'
        refine .inr ⟨List.cons_ne_nil _ _, x, s :: body', hx, by simp [hlength], ?_⟩
        have hfirst := Derives.statement_cons notEnd (content.behind_append _)
          (terminator.behind _) hrest
        simpa using hfirst

end Statements

end SurfaceGrammar

import SurfaceGrammar.Proofs.Grammar.Leaves

/-!
# What a phrase sees of the tokens after it

* `Derives.congr_head`: a phrase sees at most the first of the tokens that follow it.
* `Derives.closed`, `Derives.closedBody`: behind a closing delimiter it does not see any.
-/

namespace SurfaceGrammar

open Lookahead

/-! ## Questions about the first token -/

namespace Lookahead

variable {c : Surroundings} {r r' : List Token}

theorem head?_append_congr (ts : List Token) (h : r'.head? = r.head?) :
    (ts ++ r').head? = (ts ++ r).head? := by
  rw [List.head?_append, List.head?_append, h]

theorem kind_congr (h : r'.head? = r.head?) : kind r' = kind r := by
  cases r <;> cases r' <;> simp_all [kind]

theorem isKeyword_congr (keyword : Keyword) (h : r'.head? = r.head?) :
    isKeyword keyword r' = isKeyword keyword r := by
  cases r <;> cases r' <;> simp_all [isKeyword]

theorem isField_congr (h : r'.head? = r.head?) : isField r' = isField r := by
  cases r <;> cases r' <;> simp_all [isField]

theorem isOnNewLine_congr (h : r'.head? = r.head?) : isOnNewLine r' = isOnNewLine r := by
  cases r <;> cases r' <;> simp_all [isOnNewLine]

theorem breaks_congr (h : r'.head? = r.head?) : breaks c r' = breaks c r := by
  rw [breaks, isOnNewLine_congr h, breaks]

theorem endsChain_congr (h : r'.head? = r.head?) : endsChain c r' = endsChain c r := by
  rw [endsChain, breaks_congr h, kind_congr h, endsChain]

theorem endsOperators_congr (power : Power) (h : r'.head? = r.head?) :
    endsOperators c power r' = endsOperators c power r := by
  rw [endsOperators, breaks_congr h, kind_congr h, endsOperators]

theorem endsStatement_congr (close : TokenKind) (h : r'.head? = r.head?) :
    endsStatement close r' = endsStatement close r := by
  rw [endsStatement, kind_congr h, isOnNewLine_congr h, endsStatement]

theorem plainLabel_congr (t : Token) (h : r'.head? = r.head?) :
    plainLabel c t r' = plainLabel c t r := by
  rw [plainLabel, kind_congr h, plainLabel]

theorem bindsLabel_congr (t : Token) (h : r'.head? = r.head?) :
    bindsLabel (t :: r') = bindsLabel (t :: r) := by
  rw [bindsLabel, kind_congr h, bindsLabel]

theorem definesType_congr (t : Token) (h : r'.head? = r.head?) :
    definesType (t :: r') = definesType (t :: r) := by
  rw [definesType, kind_congr h, isOnNewLine_congr h, definesType]

end Lookahead

/-! ## Phrases -/

/-- A phrase sees at most the first of the tokens that follow it. The induction is on the
derivation; what follows a part of the phrase begins with the next part, if that has leaves. -/
theorem Derives.congr_head {elseRequired : Bool} {p : Phrase} {c : Surroundings} {w : List Leaf}
    {v : p.Tree Unit} {r : List Token} (h : Derives elseRequired p c w v r) :
    ∀ {r' : List Token}, r'.head? = r.head? → Derives elseRequired p c w v r' := by
  induction h with
  | number kind value => exact fun _ => .number kind value
  | string kind => exact fun _ => .string kind
  | char kind value => exact fun _ => .char kind value
  | boolean value word => exact fun _ => .boolean value word
  | label plain => exact fun hr => .label (by rw [plainLabel_congr _ hr, plain])
  | grouping opening inner ih => exact fun hr => .grouping opening (ih hr)
  | tuple opening inner single ih => exact fun hr => .tuple opening (ih hr) single
  | array opening inner ih => exact fun hr => .array opening (ih hr)
  | set word plain opening inner ih => exact fun hr => .set word plain opening (ih hr)
  | mapping word plain opening inner ih => exact fun hr => .mapping word plain opening (ih hr)
  | object opening inner ih => exact fun hr => .object opening (ih hr)
  | @function c k o name wp wt wb ps comma type body r word named opening parameters returnType
      inner ihp iht ihb =>
    intro r' hr
    have hbody := head?_append_congr (words wb) hr
    exact .function word named opening (ihp (head?_append_congr (words wt) hbody)) (iht hbody)
      (ihb hr)
  | arrowBody arrow value ih => exact fun hr => .arrowBody arrow (ih hr)
  | statementBody inner ih => exact fun hr => .statementBody (ih hr)
  | block kind word plain inner ih => exact fun hr => .block kind word plain (ih hr)
  | blockBody opening inner closing ih => exact fun _ => .blockBody opening (ih rfl) closing
  | conditionalValue inner ih => exact fun hr => .conditionalValue (ih hr)
  | @conditional c k valueRequired wc ws wt we e t o r word condition separator thenBranch
      elseBranch ihc ihs iht ihe =>
    intro r' hr
    have helse := head?_append_congr (words we) hr
    have hthen := head?_append_congr (words wt) helse
    exact .conditional word (ihc (head?_append_congr (words ws) hthen)) (ihs hthen) (iht helse)
      (ihe hr)
  | thenPresent word => exact fun _ => .thenPresent word
  | thenAbsent absent => exact fun hr => .thenAbsent (by rw [isKeyword_congr _ hr, absent])
  | elsePresent word branch ih => exact fun hr => .elsePresent word (ih hr)
  | elseAbsent absent allowed =>
    exact fun hr => .elseAbsent (by rw [isKeyword_congr _ hr, absent]) allowed
  | typePresent colon type ih => exact fun hr => .typePresent colon (ih hr)
  | typeAbsent absent => exact fun hr => .typeAbsent (by rw [kind_congr hr]; exact absent)
  | declaredTypePresent type ih => exact fun hr => .declaredTypePresent (ih hr)
  | declaredTypeAbsent absent => exact fun hr => .declaredTypeAbsent (by rw [kind_congr hr, absent])
  | declaration named colon declaredType assignment value iht ihv =>
    exact fun hr => .declaration named colon (iht rfl) assignment (ihv hr)
  | update named updater value ih => exact fun hr => .update named updater (ih hr)
  | chainEnd stop => exact fun hr => .chainEnd (by rw [endsChain_congr hr, stop])
  | call sameLine opening arguments more iha ihm =>
    exact fun hr => .call sameLine opening (iha (head?_append_congr (words _) hr)) (ihm hr)
  | member sameLine point field more ih => exact fun hr => .member sameLine point field (ih hr)
  | suffix sameLine symbol noField more ih =>
    intro r' hr
    refine .suffix sameLine symbol (fun hpoint => ?_) (ih hr)
    rw [isField_congr (head?_append_congr (words _) hr), noField hpoint]
  | operatorsEnd stop => exact fun hr => .operatorsEnd (by rw [endsOperators_congr _ hr, stop])
  | binary sameLine symbol tighter operand more iho ihm =>
    exact fun hr => .binary sameLine symbol tighter (iho (head?_append_congr (words _) hr)) (ihm hr)
  | @expr c power u v w first left e r head chain operators ihh ihc iho =>
    intro r' hr
    have hoperators := head?_append_congr (words w) hr
    exact .expr (ihh (head?_append_congr (words v) hoperators)) (ihc hoperators) (iho hr)
  | declared inner ih => exact fun hr => .declared (ih hr)
  | updated inner ih => exact fun hr => .updated (ih hr)
  | chosen noLabel inner ih =>
    intro r' hr
    refine .chosen ?_ (ih hr)
    obtain ⟨t, u, rfl, -⟩ := inner.starts rfl
    rw [← noLabel]
    exact bindsLabel_congr t (head?_append_congr (words u) hr)
  | plain noLabel noConditional inner ih =>
    intro r' hr
    obtain ⟨t, u, rfl, -⟩ := inner.starts rfl
    refine .plain ?_ noConditional (ih hr)
    rw [← noLabel]
    exact bindsLabel_congr t (head?_append_congr (words u) hr)
  | element inner ih => exact fun hr => .element (ih hr)
  | entry inner colon valueInner ihk ihv => exact fun hr => .entry (ihk rfl) colon (ihv hr)
  | field named colon inner ih => exact fun hr => .field named colon (ih hr)
  | parameter named inner ih => exact fun hr => .parameter named (ih hr)
  | noElement stop => exact fun hr => .noElement (by rw [kind_congr hr, stop])
  | lastElement go inner stop ih =>
    intro r' hr
    refine .lastElement ?_ (ih hr) (by rw [kind_congr hr]; exact stop)
    rw [kind_congr (head?_append_congr (words _) hr)]
    exact go
  | @moreElements c slot close afterComma o v w x xs comma r go inner separator more ihx ihm =>
    intro r' hr
    refine .moreElements ?_ (ihx rfl) separator (ihm hr)
    have hhead : (words v ++ o :: (words w ++ r')).head? =
        (words v ++ o :: (words w ++ r)).head? := head?_append_congr (words v) rfl
    rw [kind_congr hhead]
    exact go
  | delimited inner closing ih => exact fun _ => .delimited (ih rfl) closing
  | typeDefinition word named sameLine assignment definition ih =>
    exact fun hr => .typeDefinition word named sameLine assignment (ih hr)
  | expression noType inner ih =>
    intro r' hr
    refine .expression ?_ (ih hr)
    obtain ⟨t, u, rfl, -⟩ := inner.starts rfl
    rw [← noType]
    exact definesType_congr t (head?_append_congr (words u) hr)
  | semicolon kind => exact fun _ => .semicolon kind
  | noSemicolon stop => exact fun hr => .noSemicolon (by rw [endsStatement_congr _ hr, stop])
  | emptyStatement kind more ih => exact fun hr => .emptyStatement kind (ih hr)
  | noStatement stop noSemicolon =>
    exact fun hr => .noStatement (by rw [kind_congr hr, stop]) noSemicolon
  | @statement c close u v w s body r go more content terminator rest ihc iht ihr =>
    intro r' hr
    have hrest := head?_append_congr (words w) hr
    have hend := head?_append_congr (words v) hrest
    have hkind := kind_congr (head?_append_congr (words u) hend)
    exact .statement (by rw [hkind]; exact go) (by rw [hkind]; exact more) (ihc hend) (iht hrest)
      (ihr hr)

section Behind

variable {elseRequired : Bool} {p : Phrase} {c : Surroundings} {w : List Leaf} {v : p.Tree Unit}
  {t : Token} {ts us r : List Token}

/-- What stands behind the next token makes no difference. -/
theorem Derives.behind (h : Derives elseRequired p c w v (t :: ts)) (ts' : List Token) :
    Derives elseRequired p c w v (t :: ts') :=
  h.congr_head rfl

/-- What stands behind the next token makes no difference, wherever that is. -/
theorem Derives.behind_append (h : Derives elseRequired p c w v (us ++ t :: ts))
    (ts' : List Token) : Derives elseRequired p c w v (us ++ t :: ts') :=
  h.congr_head (head?_append_congr us rfl)

/-- Behind a closing delimiter anything may follow. -/
theorem Derives.closed {slot : Slot} {close : TokenKind} {v : List (slot.Tree Unit) × Bool}
    (h : Derives elseRequired (.delimited slot close) c w v r) (r' : List Token) :
    Derives elseRequired (.delimited slot close) c w v r' := by
  cases h with
  | delimited inner closing => exact .delimited (inner.behind _) closing

/-- Behind the curly bracket that closes a block anything may follow. -/
theorem Derives.closedBody {body : List (Stmt Unit)}
    (h : Derives elseRequired .blockBody c w body r) (r' : List Token) :
    Derives elseRequired .blockBody c w body r' := by
  cases h with
  | blockBody opening inner closing => exact .blockBody opening (inner.behind _) closing

end Behind

end SurfaceGrammar

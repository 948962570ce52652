import SurfaceGrammar.Proofs.Parse.Runs
import SurfaceGrammar.Proofs.Tree.Bare

/-!
# What the productions find

Whenever a production succeeds, the tokens that it passed make up a phrase of its kind, the
result is the tree of the phrase, and the state is otherwise as before. The productions call
one another through a descent, so each of them is treated under the assumption that the calls
of its descent find what they should; the induction on the number of levels is at the end.

* `Finds`: every success of a step finds a phrase.
* `Descent.Sound`: the calls a level below find expressions.
* `sound_descent`: they do at every number of levels.
* `derives_of_parse`: a module that is parsed is derived from the tokens of its source.
-/

namespace SurfaceGrammar

open Lookahead

/-- Between two states a phrase was passed, of which `P` holds together with the surroundings
and the tokens that are left. -/
def Found (s s' : ParseState) (P : Surroundings → List Leaf → List Token → Prop) : Prop :=
  ∃ w, s.Passes (words w) s' ∧ P s.surroundings w s'.ahead

/-- Every success of a step finds a phrase, of which `P` holds together with the result. -/
def Finds {β : Type} (m : Parse β) (P : Surroundings → List Leaf → β → List Token → Prop) : Prop :=
  ∀ ⦃s : ParseState⦄ ⦃b : β⦄ ⦃s' : ParseState⦄, s.Placed → m s = .ok b s' →
    Found s s' fun c w r => P c w b r

/-- The calls a level below find expressions, by the rules of the language. -/
structure Descent.Sound (down : Descent) : Prop where
  rules : down.rules = .standard
  expr : ∀ power, Finds (down.expr power) fun c w e r =>
    Derives down.elseRequired (.expr power) c w e.bare r
  statementExpr : ∀ valueRequired, Finds (down.statementExpr valueRequired) fun c w e r =>
    Derives down.elseRequired (.statementExpr valueRequired) c w e.bare r

namespace Parse

variable {s s' : ParseState} {t : Token}

/-- Passing the token at which a parse stands, if it is of a kind other than the end. -/
theorem passes_of_advance_kind {kind : TokenKind} (hs : s.Placed) (hkind : s.current.kind = kind)
    (hne : kind ≠ .eof) (h : advance s = .ok t s') : t = s.current ∧ s.Passes [t] s' :=
  passes_of_advance hs (hkind ▸ hne) h

/-- Passing a word. -/
theorem passes_of_advance_word {keyword : Keyword} (hs : s.Placed)
    (hword : s.current.keyword? = some keyword) (h : advance s = .ok t s') :
    t = s.current ∧ s.Passes [t] s' :=
  passes_of_advance_kind hs (Token.kind_of_keyword? hword) (by decide) h

/-- After a step that only records something, a production finds what it finds. -/
theorem found_of_record (event : Event) {P : Surroundings → List Leaf → List Token → Prop}
    (h : Found { s with events := s.events.push event } s' P) : Found s s' P := by
  obtain ⟨w, hpass, hP⟩ := h
  exact ⟨w, hpass.restore rfl rfl rfl rfl hpass.groupDepth hpass.inReturnType, hP⟩

theorem placed_of_record (event : Event) (hs : s.Placed) :
    { s with events := s.events.push event : ParseState }.Placed :=
  hs.congr rfl rfl

/-! ## Literals and labels -/

section Words

variable {elseRequired : Bool} {e : Expr Span}

theorem finds_literal : Finds literal fun c w e r =>
    Derives elseRequired .primary c w e.bare r := by
  intro s e s' hs h
  obtain ⟨t, l, hadvance, rfl, hl⟩ := ok_of_literal h
  have hne : s.current.kind ≠ .eof := by
    obtain ⟨hkind, -⟩ | ⟨hkind, -⟩ | ⟨hkind, -⟩ := hl <;> rw [hkind] <;> decide
  obtain ⟨rfl, hpass⟩ := passes_of_advance hs hne hadvance
  refine ⟨[s.surroundings.leaf s.current], hpass, ?_⟩
  obtain ⟨hkind, x, hvalue, rfl⟩ | ⟨hkind, rfl⟩ | ⟨hkind, c, rest, hchars, rfl⟩ := hl
  · exact .number hkind hvalue
  · exact .string hkind
  · obtain ⟨x, hvalue⟩ := (hs.current hne).single hkind
    cases hchars.symm.trans hvalue
    exact .char hkind hvalue

theorem found_of_boolean (value : Bool) (hs : s.Placed)
    (hword : s.current.keyword? = some (.ofBool value)) (h : boolean value s = .ok e s') :
    Found s s' fun c w r => Derives elseRequired .primary c w e.bare r := by
  obtain ⟨t, hadvance, rfl⟩ := ok_of_boolean h
  obtain ⟨rfl, hpass⟩ := passes_of_advance_word hs hword hadvance
  exact ⟨[s.surroundings.leaf s.current], hpass, .boolean value hword⟩

theorem found_of_plainLabel (hs : s.Placed)
    (hplain : s.current.kind = .identifier →
      Lookahead.plainLabel s.surroundings s.current s.ahead.tail = true)
    (h : plainLabel s = .ok e s') :
    Found s s' fun c w r => Derives elseRequired .primary c w e.bare r := by
  obtain ⟨t, hexpect, rfl⟩ := ok_of_plainLabel h
  obtain ⟨rfl, hkind, hpass⟩ := passes_of_expect hs (by decide) hexpect
  have htail : s.ahead.tail = s'.ahead := by rw [hpass.ahead]; rfl
  exact ⟨[s.surroundings.leaf s.current], hpass, .label (htail ▸ hplain hkind)⟩

end Words

/-! ## Delimited lists -/

section Delimited

variable {elseRequired : Bool} {slot : Slot} {close : TokenKind} {element : Parse (slot.Tree Span)}

/-- Elements are found one after another. The induction is on the bound of the loop. -/
theorem finds_elements
    (helement : Finds element fun c w x r =>
      Derives elseRequired (.element slot) c w (slot.bare x) r)
    (bound : Nat) (afterComma : Bool) :
    Finds (elements close element bound afterComma) fun c w xs r =>
      Derives elseRequired (.elements slot close afterComma) c w (xs.1.map slot.bare, xs.2) r := by
  induction bound generalizing afterComma with
  | zero =>
    intro s xs s' hs h
    cases h
  | succ bound ih =>
    intro s xs s' hs h
    obtain ⟨hclose, rfl, rfl⟩ | ⟨hclose, x, s₁, hx, hround⟩ := ok_of_elements h
    · exact ⟨[], .refl hs, .noElement (by rw [ParseState.kind_ahead, hclose])⟩
    · obtain ⟨v, hv, hxv⟩ := helement hs hx
      obtain ⟨hcomma, rfl, rfl⟩ | ⟨hcomma, t, s₂, rest, hadvance, hrest, rfl⟩ := hround
      · refine ⟨v, hv, .lastElement ?_ hxv ?_⟩
        · rw [← hv.ahead, ParseState.kind_ahead]
          exact hclose
        · rw [ParseState.kind_ahead]
          exact hcomma
      · obtain ⟨rfl, ht⟩ := passes_of_advance_kind hv.placed hcomma (by decide) hadvance
        obtain ⟨w, hw, hxsw⟩ := ih true ht.placed hrest
        have hall := hv.trans (ht.cons hw)
        rw [ht.surroundings, hv.surroundings] at hxsw
        refine ⟨v ++ s.surroundings.leaf s₁.current :: w, by simpa using hall, ?_⟩
        refine .moreElements ?_ ?_ hcomma hxsw
        · rw [← hw.ahead, ← List.singleton_append, ← ht.ahead, ← hv.ahead, ParseState.kind_ahead]
          exact hclose
        · rw [← hw.ahead, ← List.singleton_append, ← ht.ahead]
          exact hxv

/-- Elements with their closing delimiter are found, in surroundings of their own. -/
theorem finds_delimited (slot : Slot) {element : Parse (slot.Tree Span)}
    (helement : Finds element fun c w x r =>
      Derives elseRequired (.element slot) c w (slot.bare x) r)
    (bound : Nat) (hclose : close ≠ .eof) :
    Finds (delimited bound close element) fun c w list r =>
      Derives elseRequired (.delimited slot close) c w
        (list.elements.map slot.bare, list.trailingComma) r := by
  rintro s ⟨xs, comma, k⟩ s' hs h
  obtain ⟨s₁, hxs, hk⟩ := ok_of_delimited h
  have hplaced :
      { s with groupDepth := s.groupDepth + 1, inReturnType := false : ParseState }.Placed :=
    hs.congr rfl rfl
  obtain ⟨w, hw, hxsw⟩ := finds_elements helement bound false hplaced hxs
  have hinside : ParseState.surroundings
      { s with groupDepth := s.groupDepth + 1, inReturnType := false } = .inside := by
    simp [ParseState.surroundings, Surroundings.inside]
  rw [hinside] at hxsw
  have hdepth : s₁.groupDepth - 1 = s.groupDepth := by rw [hw.groupDepth]; rfl
  have hwithin : s.Passes (words w)
      { s₁ with groupDepth := s₁.groupDepth - 1, inReturnType := s.inReturnType } :=
    hw.restore rfl rfl rfl rfl hdepth rfl
  obtain ⟨rfl, hkind, hclosing⟩ := passes_of_expectOr hwithin.placed hclose hk
  refine ⟨w ++ [Surroundings.inside.leaf s₁.current], ?_, .delimited ?_ hkind⟩
  · simpa using hwithin.trans hclosing
  · have hahead : s₁.ahead = s₁.current :: s'.ahead := hclosing.ahead
    rw [← hahead]
    exact hxsw

end Delimited

/-! ## Delimited expressions -/

section Composite

variable {down : Descent}

theorem finds_element (hdown : down.Sound) : Finds (down.expr .default) fun c w e r =>
    Derives down.elseRequired (.element .expr) c w e.bare r := by
  intro s e s' hs h
  obtain ⟨w, hw, he⟩ := hdown.expr .default hs h
  exact ⟨w, hw, .element he⟩

theorem finds_entry (hdown : down.Sound) : Finds (entry down) fun c w x r =>
    Derives down.elseRequired (.element .entry) c w x.bare r := by
  intro s x s' hs h
  obtain ⟨key, s₁, t, s₂, value, hkey, ht, hvalue, rfl⟩ := ok_of_entry h
  obtain ⟨v, hv, hderives⟩ := hdown.expr .default hs hkey
  obtain ⟨rfl, hcolon, hpass⟩ := passes_of_expect hv.placed (by decide) ht
  obtain ⟨w, hw, hderives'⟩ := hdown.expr .default hpass.placed hvalue
  rw [hpass.surroundings, hv.surroundings] at hderives'
  have hall := hv.trans (hpass.cons hw)
  refine ⟨v ++ s.surroundings.leaf s₁.current :: w, by simpa using hall, ?_⟩
  refine .entry ?_ hcolon hderives'
  rw [← hw.ahead, ← List.singleton_append, ← hpass.ahead]
  exact hderives

theorem finds_field (hdown : down.Sound) : Finds (field down) fun c w x r =>
    Derives down.elseRequired (.element .field) c w x.bare r := by
  intro s x s' hs h
  obtain ⟨n, s₁, t, s₂, value, hn, ht, hvalue, rfl⟩ := ok_of_field h
  obtain ⟨rfl, hnamed, hname⟩ := passes_of_expect hs (by decide) hn
  obtain ⟨rfl, hcolon, hpass⟩ := passes_of_expect hname.placed (by decide) ht
  obtain ⟨w, hw, hderives⟩ := hdown.expr .default hpass.placed hvalue
  rw [hpass.surroundings, hname.surroundings] at hderives
  have hall := hname.cons (hpass.cons hw)
  exact ⟨s.surroundings.leaf s.current :: s.surroundings.leaf s₁.current :: w, hall,
    .field hnamed hcolon hderives⟩

theorem finds_typeAfterColon (hdown : down.Sound) : Finds (typeAfterColon down) fun c w o r =>
    Derives down.elseRequired .typeAfterColon c w (o.map Expr.bare) r := by
  intro s o s' hs h
  obtain ⟨hcolon, rfl, rfl⟩ | ⟨hcolon, t, s₁, type, ht, htype, rfl⟩ := ok_of_typeAfterColon h
  · exact ⟨[], .refl hs, .typeAbsent (by rw [ParseState.kind_ahead]; exact hcolon)⟩
  · obtain ⟨rfl, hpass⟩ := passes_of_advance_kind hs hcolon (by decide) ht
    obtain ⟨w, hw, hderives⟩ := hdown.expr .default hpass.placed htype
    rw [hpass.surroundings] at hderives
    exact ⟨s.surroundings.leaf s.current :: w, hpass.cons hw, .typePresent hcolon hderives⟩

theorem finds_parameter (hdown : down.Sound) : Finds (parameter down) fun c w x r =>
    Derives down.elseRequired (.element .parameter) c w x.bare r := by
  intro s x s' hs h
  obtain ⟨n, s₁, type, hn, htype, rfl⟩ := ok_of_parameter h
  obtain ⟨rfl, hnamed, hname⟩ := passes_of_expect hs (by decide) hn
  obtain ⟨w, hw, hderives⟩ := finds_typeAfterColon hdown hname.placed htype
  rw [hname.surroundings] at hderives
  exact ⟨s.surroundings.leaf s.current :: w, hname.cons hw, .parameter hnamed hderives⟩

theorem finds_tuple (hdown : down.Sound) : Finds (tuple down) fun c w e r =>
    Derives down.elseRequired .primary c w e.bare r := by
  intro s e s' hs h
  obtain ⟨o, s₁, list, ho, hlist, hform⟩ := ok_of_tuple h
  obtain ⟨rfl, hopening, hpass⟩ := passes_of_expect hs (by decide) ho
  obtain ⟨w, hw, hderives⟩ :=
    finds_delimited .expr (finds_element hdown) down.bound (by decide) hpass.placed hlist
  rw [hpass.surroundings] at hderives
  refine ⟨s.surroundings.leaf s.current :: w, hpass.cons hw, ?_⟩
  obtain ⟨hone, hcomma⟩ | ⟨hsingle, rfl⟩ := hform
  · rw [hone, hcomma] at hderives
    exact .grouping hopening hderives
  · rw [Expr.bare_sequence]
    exact .tuple hopening hderives (by rwa [List.length_map])

theorem finds_array (hdown : down.Sound) : Finds (array down) fun c w e r =>
    Derives down.elseRequired .primary c w e.bare r := by
  intro s e s' hs h
  obtain ⟨o, s₁, list, ho, hlist, rfl⟩ := ok_of_array h
  obtain ⟨rfl, hopening, hpass⟩ := passes_of_expect hs (by decide) ho
  obtain ⟨w, hw, hderives⟩ :=
    finds_delimited .expr (finds_element hdown) down.bound (by decide) hpass.placed hlist
  rw [hpass.surroundings] at hderives
  exact ⟨s.surroundings.leaf s.current :: w, hpass.cons hw,
    by simpa using Derives.array hopening hderives⟩

theorem finds_object (hdown : down.Sound) : Finds (object down) fun c w e r =>
    Derives down.elseRequired .primary c w e.bare r := by
  intro s e s' hs h
  obtain ⟨o, s₁, list, ho, hlist, rfl⟩ := ok_of_object h
  obtain ⟨rfl, hopening, hpass⟩ := passes_of_expect hs (by decide) ho
  obtain ⟨w, hw, hderives⟩ :=
    finds_delimited .field (finds_field hdown) down.bound (by decide) hpass.placed hlist
  rw [hpass.surroundings] at hderives
  exact ⟨s.surroundings.leaf s.current :: w, hpass.cons hw,
    by simpa using Derives.object hopening hderives⟩

/-- What is found after a word and an opening curly bracket: a set or a map. -/
theorem found_after_word (slot : Slot) {element : Parse (slot.Tree Span)}
    (helement : Finds element fun c w x r =>
      Derives down.elseRequired (.element slot) c w (slot.bare x) r)
    (f : Position → Delimited (slot.Tree Span) → Expr Span) {e : Expr Span} (hs : s.Placed)
    (h : (do
      let start := (← expect .identifier).span.start
      let _ ← expect .openCurly
      let list ← delimited down.bound .closeCurly element
      return f start list : Parse (Expr Span)) s = .ok e s') :
    ∃ o list w, e = f s.current.span.start list ∧ o.kind = .openCurly ∧
      s.Passes (words (s.surroundings.leaf s.current :: s.surroundings.leaf o :: w)) s' ∧
      Derives down.elseRequired (.delimited slot .closeCurly) s.surroundings w
        (list.elements.map slot.bare, list.trailingComma) s'.ahead := by
  obtain ⟨k, s₁, hk, h⟩ := ok_of_bind h
  obtain ⟨o, s₂, ho, h⟩ := ok_of_bind h
  obtain ⟨list, s₃, hlist, h⟩ := ok_of_bind h
  cases h
  obtain ⟨rfl, -, hword⟩ := passes_of_expect hs (by decide) hk
  obtain ⟨rfl, hopening, hpass⟩ := passes_of_expect hword.placed (by decide) ho
  obtain ⟨w, hw, hderives⟩ :=
    finds_delimited slot helement down.bound (by decide) hpass.placed hlist
  rw [hpass.surroundings, hword.surroundings] at hderives
  exact ⟨s₁.current, list, w, rfl, hopening, hword.cons (hpass.cons hw), hderives⟩

theorem found_of_set (hdown : down.Sound) {e : Expr Span} (hs : s.Placed)
    (hword : s.current.keyword? = some .set) (hplain : s.inReturnType = false)
    (h : set down s = .ok e s') :
    Found s s' fun c w r => Derives down.elseRequired .primary c w e.bare r := by
  obtain ⟨o, list, w, rfl, hopening, hpass, hderives⟩ := found_after_word .expr
    (finds_element hdown)
    (fun start list => .sequence .set list.elements ⟨start, list.closing.span.stop⟩) hs h
  exact ⟨_, hpass, by simpa using Derives.set hword hplain hopening hderives⟩

theorem found_of_mapping (hdown : down.Sound) {e : Expr Span} (hs : s.Placed)
    (hword : s.current.keyword? = some .map) (hplain : s.inReturnType = false)
    (h : mapping down s = .ok e s') :
    Found s s' fun c w r => Derives down.elseRequired .primary c w e.bare r := by
  obtain ⟨o, list, w, rfl, hopening, hpass, hderives⟩ := found_after_word .entry
    (finds_entry hdown)
    (fun start list => .mapping list.elements ⟨start, list.closing.span.stop⟩) hs h
  exact ⟨_, hpass, by simpa using Derives.mapping hword hplain hopening hderives⟩

end Composite

/-! ## Statements and blocks -/

section Statements

variable {down : Descent}

theorem found_of_typeDefinition (hdown : down.Sound) {x : Stmt Span} (hs : s.Placed)
    (hword : s.current.isKeyword .type = true)
    (hname : Lookahead.kind s.ahead.tail = .identifier ∧ isOnNewLine s.ahead.tail = false)
    (h : typeDefinition down s = .ok x s') :
    Found s s' fun c w r => Derives down.elseRequired .content c w x.bare r := by
  obtain ⟨k, s₁, n, s₂, a, s₃, definition, hk, hn, ha, hdefinition, rfl⟩ :=
    ok_of_typeDefinition h
  obtain ⟨rfl, hpassk⟩ := passes_of_advance_word hs (Token.isKeyword_iff.mp hword) hk
  obtain ⟨rfl, hnamed, hpassn⟩ := passes_of_expect hpassk.placed (by decide) hn
  obtain ⟨rfl, hassign, hpassa⟩ := passes_of_expect hpassn.placed (by decide) ha
  obtain ⟨w, hw, hderives⟩ := hdown.expr .default hpassa.placed hdefinition
  rw [hpassa.surroundings, hpassn.surroundings, hpassk.surroundings] at hderives
  have htail : s.ahead.tail = s₁.current :: s₂.ahead := by
    rw [hpassk.ahead]
    exact hpassn.ahead
  rw [htail] at hname
  exact ⟨s.surroundings.leaf s.current :: s.surroundings.leaf s₁.current ::
      s.surroundings.leaf s₂.current :: w,
    hpassk.cons (hpassn.cons (hpassa.cons hw)),
    .typeDefinition hword hnamed hname.2 hassign hderives⟩

/-- The question whether a type definition begins is answered by the next two tokens. -/
theorem found_of_beginsTypeDefinition {b : Bool} (hs : s.Placed)
    (h : beginsTypeDefinition s = .ok b s') :
    s.Passes [] s' ∧ s'.current = s.current ∧ b = definesType s.ahead := by
  have hahead (rest : List Token) (hrest : s.ahead = s.current :: rest) :
      definesType s.ahead = (s.current.isKeyword .type &&
        (Lookahead.kind s.ahead.tail = .identifier && !isOnNewLine s.ahead.tail)) := by
    rw [hrest]
    rfl
  obtain ⟨hword, rfl, rfl⟩ | ⟨hword, next, hnext, rfl⟩ := ok_of_beginsTypeDefinition h
  · refine ⟨.refl hs, rfl, ?_⟩
    obtain ⟨hnil, -⟩ | ⟨rest, hrest⟩ := ParseState.sees_current s'
    · rw [hnil]
      rfl
    · rw [hahead rest hrest, hword, Bool.false_and]
  · obtain ⟨hpass, hsees, hcurrent⟩ := passes_of_peek hs hnext
    have hkind := Token.kind_of_keyword? (Token.isKeyword_iff.mp hword)
    obtain ⟨rest, hrest⟩ := (ParseState.sees_current s).eq_cons (by rw [hkind]; decide)
    refine ⟨hpass, hcurrent, ?_⟩
    rw [hahead rest hrest, hword, hsees.kind]
    by_cases hidentifier : next.kind = .identifier
    · obtain ⟨rest', hrest'⟩ := hsees.eq_cons (by rw [hidentifier]; decide)
      simp [hrest', isOnNewLine, hidentifier]
    · simp [hidentifier]

theorem finds_statementContent (hdown : down.Sound) : Finds (statementContent down) fun c w x r =>
    Derives down.elseRequired .content c w x.bare r := by
  intro s x s' hs h
  obtain ⟨b, s₁, hb, hform⟩ := ok_of_statementContent h
  obtain ⟨hpass, hcurrent, rfl⟩ := found_of_beginsTypeDefinition hs hb
  have hahead : s₁.ahead = s.ahead := hpass.ahead.symm
  obtain ⟨htype, h⟩ | ⟨htype, e, he, rfl⟩ := hform
  · have hsplit : s.current.isKeyword .type = true ∧
        Lookahead.kind s.ahead.tail = .identifier ∧ isOnNewLine s.ahead.tail = false := by
      obtain ⟨hnil, -⟩ | ⟨rest, hrest⟩ := ParseState.sees_current s
      · rw [hnil] at htype
        cases htype
      · rw [hrest] at htype ⊢
        simpa [definesType] using htype
    rw [← hcurrent, ← hahead] at hsplit
    obtain ⟨w, hw, hderives⟩ :=
      found_of_typeDefinition hdown hpass.placed hsplit.1 hsplit.2 h
    rw [hpass.surroundings] at hderives
    exact ⟨w, hpass.trans hw, hderives⟩
  · obtain ⟨w, hw, hderives⟩ := hdown.statementExpr false hpass.placed he
    rw [hpass.surroundings] at hderives
    refine ⟨w, hpass.trans hw, .expression ?_ hderives⟩
    rw [← hw.ahead, hahead, htype]

theorem finds_terminator (elseRequired : Bool) (close : TokenKind) :
    Finds (terminator close) fun c w _ r =>
      Derives elseRequired (.terminator close) c w () r := by
  intro s u s' hs h
  obtain ⟨hsemicolon, t, ht⟩ | ⟨hsemicolon, rfl, hend⟩ := ok_of_terminator h
  · obtain ⟨rfl, hpass⟩ := passes_of_advance_kind hs hsemicolon (by decide) ht
    exact ⟨[s.surroundings.leaf s.current], hpass, .semicolon hsemicolon⟩
  · refine ⟨[], .refl hs, .noSemicolon ?_⟩
    obtain ⟨hnil, heof⟩ | ⟨rest, hrest⟩ := ParseState.sees_current s'
    · rw [hnil]
      simp [endsStatement, Lookahead.kind]
    · rw [hrest]
      exact endsStatement_cons_iff.mpr ⟨hsemicolon, hend⟩

theorem finds_statement (hdown : down.Sound) (close : TokenKind) {x : Stmt Span} (hs : s.Placed)
    (h : statement down close s = .ok x s') :
    ∃ u v, s.Passes (words u ++ words v) s' ∧
      Derives down.elseRequired .content s.surroundings u x.bare (words v ++ s'.ahead) ∧
      Derives down.elseRequired (.terminator close) s.surroundings v () s'.ahead := by
  obtain ⟨s₁, _, hcontent, hterminator⟩ := ok_of_statement h
  obtain ⟨u, hu, hderives⟩ :=
    found_of_record _ (finds_statementContent hdown (placed_of_record _ hs) hcontent)
  obtain ⟨v, hv, hend⟩ := finds_terminator down.elseRequired close hu.placed hterminator
  rw [hu.surroundings] at hend
  rw [hv.ahead] at hderives
  exact ⟨u, v, hu.trans hv, hderives, hend⟩

/-- Statements are found one after another. The induction is on the bound of the loop. -/
theorem finds_statements (hdown : down.Sound) {close : TokenKind} (hclose : close ≠ .semicolon)
    (bound : Nat) : Finds (statements down close bound) fun c w body r =>
      Derives down.elseRequired (.statements close) c w (body.map Stmt.bare) r := by
  induction bound with
  | zero =>
    intro s body s' hs h
    cases h
  | succ bound ih =>
    intro s body s' hs h
    obtain ⟨hsemicolon, t, s₁, ht, h⟩ | ⟨hstop, rfl, rfl⟩ |
      ⟨hstop, heof, first, s₁, rest, hfirst, hrest, rfl⟩ := ok_of_statements h
    · obtain ⟨rfl, hpass⟩ := passes_of_advance_kind hs hsemicolon (by decide) ht
      obtain ⟨w, hw, hderives⟩ := ih hpass.placed h
      rw [hpass.surroundings] at hderives
      exact ⟨s.surroundings.leaf s.current :: w, hpass.cons hw,
        .emptyStatement hsemicolon hderives⟩
    · exact ⟨[], .refl hs, .noStatement (by rw [ParseState.kind_ahead, hstop]) hclose⟩
    · obtain ⟨u, v, huv, hcontent, hterminator⟩ := finds_statement hdown close hs hfirst
      obtain ⟨w, hw, hderives⟩ := ih huv.placed hrest
      rw [huv.surroundings] at hderives
      rw [hw.ahead] at hcontent hterminator
      refine ⟨u ++ (v ++ w), by simpa using huv.trans hw, ?_⟩
      have hkind : Lookahead.kind (words u ++ (words v ++ (words w ++ s'.ahead))) =
          s.current.kind := by
        rw [← hw.ahead, ← List.append_assoc, ← huv.ahead, ParseState.kind_ahead]
      exact .statement (by rw [hkind]; exact hstop) (by rw [hkind]; exact heof) hcontent
        hterminator hderives

/-- The depth is restored after a block, so that the block leaves the context as it was. -/
theorem finds_blockBody (hdown : down.Sound) : Finds (blockBody down) fun c w body r =>
    Derives down.elseRequired .blockBody c w (body.map Stmt.bare) r := by
  intro s body s' hs h
  obtain ⟨o, s₁, s₄, k, s₃, ho, hstatements, hk, rfl⟩ := ok_of_blockBody h
  obtain ⟨rfl, hopening, hpass⟩ := passes_of_expect hs (by decide) ho
  have hplaced : { s₁ with groupDepth := 0 : ParseState }.Placed := hpass.placed.congr rfl rfl
  obtain ⟨w, hw, hderives⟩ := finds_statements hdown (by decide) down.bound hplaced hstatements
  have hblock : ParseState.surroundings { s₁ with groupDepth := 0 } = s.surroundings.block := by
    rw [← hpass.surroundings]
    rfl
  rw [hblock] at hderives
  have hwithin : s₁.Passes (words w) { s₄ with groupDepth := s₁.groupDepth } :=
    hw.restore rfl rfl rfl rfl rfl hw.inReturnType
  obtain ⟨rfl, hclosing, hlast⟩ := passes_of_expect hwithin.placed (by decide) hk
  have hall := hpass.cons (hwithin.trans hlast)
  refine ⟨s.surroundings.leaf s.current :: (w ++ [s.surroundings.block.leaf s₄.current]), ?_,
    .blockBody hopening ?_ hclosing⟩
  · rw [words_cons, words_append]
    exact hall.restore rfl rfl rfl rfl hall.groupDepth hall.inReturnType
  · have hahead : s₄.ahead = s₄.current :: s₃.ahead := hlast.ahead
    rw [hahead] at hderives
    exact hderives

end Statements

/-! ## Functions, blocks and conditionals -/

section Branches

variable {down : Descent} {e : Expr Span}

theorem finds_functionBody (hdown : down.Sound) (typed : Bool) :
    Finds (functionBody down typed) fun c w body r =>
      Derives down.elseRequired .functionBody c w body.bare r := by
  intro s body s' hs h
  obtain ⟨hkind, t, s₁, value, ht, hvalue, rfl⟩ | ⟨-, inner, hinner, rfl⟩ := ok_of_functionBody h
  · obtain ⟨rfl, hpass⟩ := passes_of_advance_kind hs hkind (by decide) ht
    obtain ⟨w, hw, hderives⟩ := hdown.statementExpr true hpass.placed hvalue
    rw [hpass.surroundings] at hderives
    exact ⟨s.surroundings.leaf s.current :: w, hpass.cons hw, .arrowBody hkind hderives⟩
  · obtain ⟨w, hw, hderives⟩ := finds_blockBody hdown hs hinner
    exact ⟨w, hw, by simpa using Derives.statementBody hderives⟩

/-- The name of a function is an identifier, if there is one. -/
theorem found_of_functionName {name : Option String} (hs : s.Placed)
    (h : functionName s = .ok name s') :
    ∃ n : Option Token, name = n.map Token.value ∧ (∀ t ∈ n, t.kind = .identifier) ∧
      s.Passes n.toList s' := by
  obtain ⟨-, rfl, rfl⟩ | ⟨hkind, t, ht, rfl⟩ := ok_of_functionName h
  · exact ⟨none, rfl, by simp, .refl hs⟩
  · obtain ⟨rfl, hpass⟩ := passes_of_advance_kind hs hkind (by decide) ht
    exact ⟨some s.current, rfl, by simpa using hkind, hpass⟩

/-- The return type and the body of a function are found, each in surroundings of its own. -/
theorem found_of_function (hdown : down.Sound) (hs : s.Placed)
    (hword : s.current.keyword? = some .fn) (h : function down s = .ok e s') :
    Found s s' fun c w r => Derives down.elseRequired .primary c w e.bare r := by
  obtain ⟨k, s₁, name, s₂, o, s₃, list, s₄, type, s₅, body, s₆, hk, hname, ho, hlist, htype, hbody,
    rfl, rfl⟩ := ok_of_function h
  refine found_of_record (.function s.current.kind) ?_
  obtain ⟨rfl, -, hpassk⟩ := passes_of_expect (placed_of_record _ hs) (by decide) hk
  obtain ⟨n, rfl, hnamed, hpassn⟩ := found_of_functionName hpassk.placed hname
  obtain ⟨rfl, hopening, hpasso⟩ := passes_of_expectOr hpassn.placed (by decide) ho
  obtain ⟨wp, hwp, hparameters⟩ :=
    finds_delimited .parameter (finds_parameter hdown) down.bound (by decide) hpasso.placed hlist
  have hinside : s₃.surroundings = s.surroundings :=
    (hpassk.trans (hpassn.trans hpasso)).surroundings
  rw [hinside] at hparameters
  have hbefore := hpassk.trans (hpassn.trans (hpasso.trans hwp))
  have hplaced : { s₄ with inReturnType := true : ParseState }.Placed := hwp.placed.congr rfl rfl
  obtain ⟨wt, hwt, hderivesType⟩ := finds_typeAfterColon hdown hplaced htype
  have htyped : s₄.Passes (words wt) { s₅ with inReturnType := s₄.inReturnType } :=
    hwt.restore rfl rfl rfl rfl hwt.groupDepth rfl
  have hplaced' : { s₅ with inReturnType := false : ParseState }.Placed :=
    hwt.placed.congr rfl rfl
  obtain ⟨wb, hwb, hderivesBody⟩ := finds_functionBody hdown _ hplaced' hbody
  have hbodied : ParseState.Passes { s₅ with inReturnType := s₄.inReturnType } (words wb)
      { s₆ with inReturnType := s₄.inReturnType } :=
    hwb.restore rfl rfl rfl rfl hwb.groupDepth rfl
  have hall := hbefore.trans (htyped.trans hbodied)
  have hsurroundings : s₄.surroundings = s.surroundings := hbefore.surroundings
  have htype' : ParseState.surroundings { s₄ with inReturnType := true } =
      s.surroundings.typing true := by
    rw [← hsurroundings]
    rfl
  have hbody' : ParseState.surroundings { s₅ with inReturnType := false } =
      s.surroundings.typing false := by
    rw [← hsurroundings, ← htyped.surroundings]
    rfl
  have hahead : s₅.ahead = words wb ++ s₆.ahead := hwb.ahead
  rw [htype', hahead] at hderivesType
  rw [hbody'] at hderivesBody
  rw [htyped.ahead, hbodied.ahead] at hparameters
  refine ⟨s.surroundings.leaf s.current :: (n.toList.map s.surroundings.leaf ++
    s.surroundings.leaf s₂.current :: (wp ++ (wt ++ wb))), ?_, ?_⟩
  · have hn : words (n.toList.map s.surroundings.leaf) = n.toList := by
      simp [words, Function.comp_def]
    simpa [hn] using hall
  · rw [Expr.bare_function]
    exact .function hword hnamed hopening hparameters hderivesType hderivesBody

theorem found_of_block (hdown : down.Sound) (kind : BlockKind) (hs : s.Placed)
    (hword : s.current.keyword? = some kind.keyword) (hplain : s.inReturnType = false)
    (h : block down kind s = .ok e s') :
    Found s s' fun c w r => Derives down.elseRequired .primary c w e.bare r := by
  obtain ⟨k, s₁, body, hk, hbody, rfl⟩ := ok_of_block h
  refine found_of_record (.block kind) ?_
  obtain ⟨rfl, -, hpass⟩ := passes_of_expect (placed_of_record _ hs) (by decide) hk
  obtain ⟨w, hw, hderives⟩ := finds_blockBody hdown hpass.placed hbody
  have hsame : s₁.surroundings = s.surroundings := hpass.surroundings
  rw [hsame] at hderives
  refine ⟨s.surroundings.leaf s.current :: w, hpass.cons hw, ?_⟩
  rw [Expr.bare_block]
  exact .block kind hword hplain hderives

theorem finds_skipThen (elseRequired : Bool) : Finds skipThen fun c w _ r =>
    Derives elseRequired .thenWord c w () r := by
  intro s u s' hs h
  obtain ⟨hword, rfl⟩ | ⟨hword, t, ht⟩ := ok_of_skipThen h
  · exact ⟨[], .refl hs, .thenAbsent (by simpa using hword)⟩
  · obtain ⟨rfl, hpass⟩ := passes_of_advance_word hs (Token.isKeyword_iff.mp hword) ht
    exact ⟨[s.surroundings.leaf s.current], hpass, .thenPresent hword⟩

theorem finds_elseBranch (hdown : down.Sound) (valueRequired : Bool) (start : Position) :
    Finds (elseBranch down valueRequired start) fun c w o r =>
      Derives down.elseRequired (.elseBranch valueRequired) c w (o.map Expr.bare) r := by
  intro s o s' hs h
  obtain ⟨hword, hallowed, rfl, rfl⟩ | ⟨hword, t, s₁, branch, ht, hbranch, rfl⟩ :=
    ok_of_elseBranch h
  · exact ⟨[], .refl hs, .elseAbsent (by simpa using hword) hallowed⟩
  · obtain ⟨rfl, hpass⟩ := passes_of_advance_word hs (Token.isKeyword_iff.mp hword) ht
    obtain ⟨w, hw, hderives⟩ := hdown.statementExpr valueRequired hpass.placed hbranch
    rw [hpass.surroundings] at hderives
    exact ⟨s.surroundings.leaf s.current :: w, hpass.cons hw, .elsePresent hword hderives⟩

theorem found_of_conditional (hdown : down.Sound) {valueRequired : Bool} (hs : s.Placed)
    (hword : s.current.keyword? = some .if) (h : conditional down valueRequired s = .ok e s') :
    Found s s' fun c w r =>
      Derives down.elseRequired (.conditional valueRequired) c w e.bare r := by
  obtain ⟨k, s₁, condition, s₂, _, s₃, thenBranch, s₄, otherwise, hk, hcondition, hthen,
    hthenBranch, hotherwise, rfl⟩ := ok_of_conditional h
  refine found_of_record (.conditional valueRequired) ?_
  obtain ⟨rfl, hpass⟩ := passes_of_advance_word (placed_of_record _ hs) hword hk
  obtain ⟨wc, hwc, hderivesCondition⟩ := hdown.expr .default hpass.placed hcondition
  obtain ⟨ws, hws, hderivesThen⟩ := finds_skipThen down.elseRequired hwc.placed hthen
  obtain ⟨wt, hwt, hderivesBranch⟩ := hdown.statementExpr valueRequired hws.placed hthenBranch
  obtain ⟨we, hwe, hderivesElse⟩ := finds_elseBranch hdown valueRequired _ hwt.placed hotherwise
  rw [hpass.surroundings, hws.ahead, hwt.ahead, hwe.ahead] at hderivesCondition
  rw [hwc.surroundings, hpass.surroundings, hwt.ahead, hwe.ahead] at hderivesThen
  rw [hws.surroundings, hwc.surroundings, hpass.surroundings, hwe.ahead] at hderivesBranch
  rw [hwt.surroundings, hws.surroundings, hwc.surroundings, hpass.surroundings] at hderivesElse
  have hall := hpass.cons (hwc.trans (hws.trans (hwt.trans hwe)))
  refine ⟨s.surroundings.leaf s.current :: (wc ++ (ws ++ (wt ++ we))), by simpa using hall, ?_⟩
  rw [Expr.bare_conditional]
  exact .conditional hword hderivesCondition hderivesThen hderivesBranch hderivesElse

/-! ## Words -/

/-- A curly bracket belongs to the word before it, unless a return type is being read. -/
theorem found_of_opensCurly {b : Bool} (hs : s.Placed) (h : opensCurly s = .ok b s') :
    s.Passes [] s' ∧ s'.current = s.current ∧
      b = (!s.inReturnType && Lookahead.kind s.ahead.tail = .openCurly) := by
  obtain ⟨htype, rfl, rfl⟩ | ⟨htype, next, hnext, rfl⟩ := ok_of_opensCurly h
  · exact ⟨.refl hs, rfl, by simp [htype]⟩
  · obtain ⟨hpass, hsees, hcurrent⟩ := passes_of_peek hs hnext
    exact ⟨hpass, hcurrent, by simp [htype, hsees.kind]⟩

/-- What is found at a word that opens a block, a set or a map, or is a plain label. -/
theorem found_of_opener {production : Parse (Expr Span)} {keyword : Keyword} (hs : s.Placed)
    (hword : s.current.keyword? = some keyword)
    (hopener : keyword = .do ∨ keyword = .scope ∨ keyword = .set ∨ keyword = .map)
    (hproduction : ∀ {s s' : ParseState} {e : Expr Span}, s.Placed →
      s.current.keyword? = some keyword → s.inReturnType = false → production s = .ok e s' →
      Found s s' fun c w r => Derives down.elseRequired .primary c w e.bare r)
    (h : (do if ← opensCurly then production else plainLabel : Parse (Expr Span)) s = .ok e s') :
    Found s s' fun c w r => Derives down.elseRequired .primary c w e.bare r := by
  obtain ⟨b, s₁, hb, h⟩ := ok_of_bind h
  obtain ⟨hpass, hcurrent, rfl⟩ := found_of_opensCurly hs hb
  have hword' : s₁.current.keyword? = some keyword := by rw [hcurrent, hword]
  have hfound : Found s₁ s' fun c w r =>
      Derives down.elseRequired .primary c w e.bare r := by
    split at h
    · next hopens =>
      have htype : s.inReturnType = false := by simpa using (Bool.and_eq_true_iff.mp hopens).1
      exact hproduction hpass.placed hword' (hpass.inReturnType.trans htype) h
    · next hopens =>
      refine found_of_plainLabel hpass.placed (fun hkind => ?_) h
      have hahead : s₁.ahead = s.ahead := hpass.ahead.symm
      rw [hpass.surroundings, hahead]
      have hopens' : s.inReturnType = true ∨ Lookahead.kind s.ahead.tail ≠ .openCurly := by
        by_cases htype : s.inReturnType = true
        · exact .inl htype
        · simpa [htype] using hopens
      rcases hopener with rfl | rfl | rfl | rfl <;>
        simpa [Lookahead.plainLabel, hkind, hword', ParseState.surroundings] using hopens'
  obtain ⟨w, hw, hderives⟩ := hfound
  rw [hpass.surroundings] at hderives
  exact ⟨w, hpass.trans hw, hderives⟩

theorem finds_label (hdown : down.Sound) : Finds (label down) fun c w e r =>
    Derives down.elseRequired .primary c w e.bare r := by
  intro s e s' hs h
  unfold label at h
  rw [bind_current] at h
  have hplain (hword : s.current.keyword? = none ∨ s.current.keyword? = some .type)
      (h : plainLabel s = .ok e s') :
      Found s s' fun c w r => Derives down.elseRequired .primary c w e.bare r := by
    refine found_of_plainLabel hs (fun hkind => ?_) h
    rcases hword with hword | hword <;> simp [Lookahead.plainLabel, hkind, hword]
  cases hword : s.current.keyword? with
  | none =>
    rw [hword] at h
    exact hplain (.inl hword) h
  | some keyword =>
    rw [hword] at h
    cases keyword with
    | «if» =>
      obtain ⟨w, hw, hderives⟩ := found_of_conditional hdown hs hword h
      exact ⟨w, hw, .conditionalValue hderives⟩
    | «then» | «else» => exact absurd h unexpected_ne_ok
    | fn => exact found_of_function hdown hs hword h
    | type => exact hplain (.inr hword) h
    | «do» => exact found_of_opener hs hword (by decide) (found_of_block hdown .do) h
    | scope => exact found_of_opener hs hword (by decide) (found_of_block hdown .scope) h
    | set => exact found_of_opener hs hword (by decide) (found_of_set hdown) h
    | map => exact found_of_opener hs hword (by decide) (found_of_mapping hdown) h
    | true => exact found_of_boolean true hs hword h
    | false => exact found_of_boolean false hs hword h

end Branches

/-! ## Declarations and updates -/

section Changes

variable {down : Descent} {e : Expr Span}

theorem finds_declaredType (hdown : down.Sound) : Finds (declaredType down) fun c w o r =>
    Derives down.elseRequired .declaredType c w (o.map Expr.bare) r := by
  intro s o s' hs h
  obtain ⟨hassign, rfl, rfl⟩ | ⟨-, type, htype, rfl⟩ := ok_of_declaredType h
  · exact ⟨[], .refl hs, .declaredTypeAbsent (by rw [ParseState.kind_ahead, hassign])⟩
  · obtain ⟨w, hw, hderives⟩ := hdown.expr .default hs htype
    exact ⟨w, hw, .declaredTypePresent hderives⟩

theorem finds_declaration (hdown : down.Sound) : Finds (declaration down) fun c w e r =>
    Derives down.elseRequired .declaration c w e.bare r := by
  intro s e s' hs h
  obtain ⟨n, s₁, o, s₂, type, s₃, a, s₄, value, hn, ho, htype, ha, hvalue, rfl⟩ :=
    ok_of_declaration h
  refine found_of_record (.declaration s.current.value) ?_
  obtain ⟨rfl, hnamed, hpassn⟩ := passes_of_expect (placed_of_record _ hs) (by decide) hn
  obtain ⟨rfl, hcolon, hpasso⟩ := passes_of_expect hpassn.placed (by decide) ho
  obtain ⟨wt, hwt, hderivesType⟩ := finds_declaredType hdown hpasso.placed htype
  obtain ⟨rfl, hassign, hpassa⟩ := passes_of_expect hwt.placed (by decide) ha
  obtain ⟨wv, hwv, hderivesValue⟩ := hdown.expr .default hpassa.placed hvalue
  rw [hpasso.surroundings, hpassn.surroundings, hpassa.ahead, hwv.ahead] at hderivesType
  rw [hpassa.surroundings, hwt.surroundings, hpasso.surroundings, hpassn.surroundings]
    at hderivesValue
  have hall := hpassn.cons (hpasso.cons (hwt.trans (hpassa.cons hwv)))
  refine ⟨s.surroundings.leaf s.current :: s.surroundings.leaf s₁.current ::
    (wt ++ s.surroundings.leaf s₃.current :: wv), by simpa using hall, ?_⟩
  dsimp only
  rw [Expr.bare_declaration]
  exact .declaration hnamed hcolon hderivesType hassign hderivesValue

theorem finds_update (hdown : down.Sound) : Finds (update down) fun c w e r =>
    Derives down.elseRequired .update c w e.bare r := by
  intro s e s' hs h
  obtain ⟨n, s₁, operator, o, s₂, value, hn, hupdater, ho, hvalue, rfl⟩ := ok_of_update h
  refine found_of_record (.update s.current.value) ?_
  obtain ⟨rfl, hnamed, hpassn⟩ := passes_of_expect (placed_of_record _ hs) (by decide) hn
  have hne : s₁.current.kind ≠ .eof := TokenKind.ne_of_some hupdater rfl
  obtain ⟨rfl, hpasso⟩ := passes_of_advance hpassn.placed hne ho
  obtain ⟨w, hw, hderives⟩ := hdown.expr .default hpasso.placed hvalue
  rw [hpasso.surroundings, hpassn.surroundings] at hderives
  exact ⟨s.surroundings.leaf s.current :: s.surroundings.leaf s₁.current :: w,
    hpassn.cons (hpasso.cons hw), .update hnamed hupdater hderives⟩

end Changes

/-! ## Calls, members, suffixes and operators -/

section Following

variable {down : Descent} {base e : Expr Span}

theorem found_of_suffix (hs : s.Placed) (h : suffix base s = .ok e s') : ∃ operator,
    SuffixOperator.ofKind? s.current.kind = some operator ∧ s.Passes [s.current] s' ∧
    e.bare = .suffix base.bare operator () := by
  obtain ⟨operator, t, hsymbol, ht, rfl⟩ := ok_of_suffix h
  obtain ⟨rfl, hpass⟩ := passes_of_advance hs (TokenKind.ne_of_some hsymbol rfl) ht
  exact ⟨operator, hsymbol, hpass, rfl⟩

/-- What is found at a point: a member if a field follows, else a suffix. -/
theorem found_of_afterPoint (hs : s.Placed) (hpoint : s.current.kind = .dot)
    (h : afterPoint base s = .ok e s') :
    (∃ n, Parse.isField n = true ∧ s.Passes [s.current, n] s' ∧
      e.bare = .member base.bare n.value ()) ∨
    (s.Passes [s.current] s' ∧ Lookahead.isField s'.ahead = false ∧
      e.bare = .suffix base.bare .dot ()) := by
  obtain ⟨next, s₁, hnext, hform⟩ := ok_of_afterPoint h
  obtain ⟨hpass, hsees, hcurrent⟩ := passes_of_peek hs hnext
  have hahead : s₁.ahead = s.ahead := hpass.ahead.symm
  obtain ⟨hfield, h⟩ | ⟨hfield, h⟩ := hform
  · obtain ⟨o, s₂, n, ho, hn, rfl⟩ := ok_of_member h
    obtain ⟨rfl, -, hpasso⟩ := passes_of_expect hpass.placed (by decide) ho
    obtain ⟨rfl, -, hpassn⟩ := passes_of_expect hpasso.placed (by decide) hn
    have htail : s₂.ahead = s.ahead.tail := by rw [← hahead, hpasso.ahead]; rfl
    refine .inl ⟨s₂.current, ?_, ?_, rfl⟩
    · rw [← (ParseState.sees_current s₂).isField, htail, hsees.isField, hfield]
    · rw [← hcurrent]
      exact hpass.trans (hpasso.cons hpassn)
  · obtain ⟨operator, hsymbol, hpasso, he⟩ := found_of_suffix hpass.placed h
    rw [hcurrent, hpoint] at hsymbol
    cases hsymbol
    have htail : s'.ahead = s.ahead.tail := by rw [← hahead, hpasso.ahead]; rfl
    refine .inr ⟨?_, ?_, he⟩
    · rw [← hcurrent]
      exact hpass.trans hpasso
    · rw [htail, hsees.isField, hfield]

theorem endsChain_of_atLineBreak (h : s.atLineBreak = true) :
    endsChain s.surroundings s.ahead = true := by
  obtain ⟨hnil, -⟩ | ⟨rest, hrest⟩ := ParseState.sees_current s
  · rw [hnil]
    simp [endsChain, Lookahead.kind]
  · rw [ParseState.atLineBreak_eq] at h
    rw [hrest, endsChain, show breaks s.surroundings (s.current :: rest) = true from h]
    rfl

theorem endsOperators_of_atLineBreak (power : Power) (h : s.atLineBreak = true) :
    endsOperators s.surroundings power s.ahead = true := by
  obtain ⟨hnil, -⟩ | ⟨rest, hrest⟩ := ParseState.sees_current s
  · rw [hnil]
    simp [endsOperators, Lookahead.kind, BinaryOperator.ofKind?]
  · rw [ParseState.atLineBreak_eq] at h
    rw [hrest, endsOperators, show breaks s.surroundings (s.current :: rest) = true from h]
    rfl

/-- Calls, members and suffixes are found one after another. The induction is on the bound of
the loop. -/
theorem finds_suffixChain (hdown : down.Sound) (bound : Nat) (base : Expr Span) :
    Finds (suffixChain down bound base) fun c w e r =>
      Derives down.elseRequired (.chain base.bare) c w e.bare r := by
  induction bound generalizing base with
  | zero =>
    intro s e s' hs h
    cases h
  | succ bound ih =>
    intro s e s' hs h
    obtain ⟨hend, rfl, rfl⟩ | ⟨hbreak, base', s₁, hrest, hround⟩ := ok_of_suffixChain h
    · refine ⟨[], .refl hs, .chainEnd ?_⟩
      obtain hbreak | hkind := hend
      · exact endsChain_of_atLineBreak hbreak
      · rw [endsChain, ParseState.kind_ahead, Bool.or_eq_true]
        cases hcurrent : s'.current.kind <;> rw [hcurrent] at hkind
        case openParen | dot | dollar | hash | question => exact absurd (by decide) hkind
        all_goals exact .inr rfl
    · have hsame : breaks s.surroundings [s.current] = false := by
        rw [← ParseState.atLineBreak_eq, hbreak]
      obtain ⟨-, hbase⟩ | ⟨hkind, hbase⟩ | ⟨hkind, hbase⟩ := hround
      · obtain ⟨o, s₂, list, ho, hlist, rfl⟩ := ok_of_call hbase
        obtain ⟨rfl, hopening, hpass⟩ := passes_of_expect hs (by decide) ho
        obtain ⟨w, hw, harguments⟩ :=
          finds_delimited .expr (finds_element hdown) down.bound (by decide) hpass.placed hlist
        obtain ⟨v, hv, hderives⟩ := ih _ hw.placed hrest
        rw [hpass.surroundings, hv.ahead] at harguments
        rw [hw.surroundings, hpass.surroundings, Expr.bare_call] at hderives
        refine ⟨s.surroundings.leaf s.current :: (w ++ v), ?_,
          .call hsame hopening harguments hderives⟩
        simpa using hpass.cons (hw.trans hv)
      · obtain ⟨n, hfield, hpass, hbare⟩ | ⟨hpass, hfield, hbare⟩ :=
          found_of_afterPoint hs hkind hbase
        · obtain ⟨w, hw, hderives⟩ := ih base' hpass.placed hrest
          rw [hpass.surroundings, hbare] at hderives
          exact ⟨s.surroundings.leaf s.current :: s.surroundings.leaf n :: w, hpass.trans hw,
            .member hsame hkind hfield hderives⟩
        · obtain ⟨w, hw, hderives⟩ := ih base' hpass.placed hrest
          rw [hpass.surroundings, hbare] at hderives
          rw [hw.ahead] at hfield
          exact ⟨s.surroundings.leaf s.current :: w, hpass.cons hw,
            .suffix hsame (by rw [hkind]; rfl) (fun _ => hfield) hderives⟩
      · obtain ⟨operator, hsymbol, hpass, hbare⟩ := found_of_suffix hs hbase
        obtain ⟨w, hw, hderives⟩ := ih base' hpass.placed hrest
        rw [hpass.surroundings, hbare] at hderives
        exact ⟨s.surroundings.leaf s.current :: w, hpass.cons hw, .suffix hsame hsymbol
          (fun hdot => absurd (hdot ▸ hkind) (by decide)) hderives⟩

/-- Operators are found one after another. The induction is on the bound of the loop. -/
theorem finds_operators (hdown : down.Sound) (power : Power) (bound : Nat) (left : Expr Span) :
    Finds (operators down power bound left) fun c w e r =>
      Derives down.elseRequired (.operators power left.bare) c w e.bare r := by
  induction bound generalizing left with
  | zero =>
    intro s e s' hs h
    cases h
  | succ bound ih =>
    intro s e s' hs h
    obtain ⟨hend, rfl, rfl⟩ | ⟨hbreak, operator, left', s₁, hsymbol, hlevel, hleft, hrest⟩ :=
      ok_of_operators hdown.rules h
    · refine ⟨[], .refl hs, .operatorsEnd ?_⟩
      obtain hbreak | hloose := hend
      · exact endsOperators_of_atLineBreak power hbreak
      · cases hsymbol : BinaryOperator.ofKind? s'.current.kind with
        | none => simp [endsOperators, hsymbol]
        | some operator => simp [endsOperators, hsymbol, hloose operator hsymbol]
    · have hsame : breaks s.surroundings [s.current] = false := by
        rw [← ParseState.atLineBreak_eq, hbreak]
      obtain ⟨o, s₂, operator', right, ho, hsymbol', hright, rfl⟩ := ok_of_binary hleft
      have hne : s.current.kind ≠ .eof := TokenKind.ne_of_some hsymbol rfl
      obtain ⟨rfl, hpass⟩ := passes_of_advance hs hne ho
      cases hsymbol.symm.trans hsymbol'
      obtain ⟨w, hw, hoperand⟩ := hdown.expr operator.level hpass.placed hright
      obtain ⟨v, hv, hderives⟩ := ih _ hw.placed hrest
      rw [hpass.surroundings, hv.ahead] at hoperand
      rw [hw.surroundings, hpass.surroundings, Expr.bare_binary] at hderives
      refine ⟨s.surroundings.leaf s.current :: (w ++ v), ?_,
        .binary hsame hsymbol hlevel hoperand hderives⟩
      simpa using hpass.cons (hw.trans hv)

end Following

/-! ## Whole expressions -/

section Whole

variable {down : Descent}

/-- The tables of the language name productions that find what they should. -/
theorem finds_primary (hdown : down.Sound) {kind : TokenKind} {rule : PrimaryRule}
    (hrule : Rules.standardPrimary? kind = some rule) :
    Finds (primary down rule) fun c w e r =>
      Derives down.elseRequired .primary c w e.bare r := by
  cases kind <;> cases hrule
  case number | string | char => exact finds_literal
  case identifier => exact finds_label hdown
  case openParen => exact finds_tuple hdown
  case openBracket => exact finds_array hdown
  case openCurly => exact finds_object hdown

theorem finds_expr (hdown : down.Sound) (power : Power) : Finds (expr down power) fun c w e r =>
    Derives down.elseRequired (.expr power) c w e.bare r := by
  intro s e s' hs h
  obtain ⟨rule, first, s₁, left, s₂, hrule, hfirst, hleft, h⟩ := ok_of_expr hdown.rules h
  obtain ⟨u, hu, hhead⟩ :=
    found_of_record _ (finds_primary hdown hrule (placed_of_record _ hs) hfirst)
  obtain ⟨v, hv, hchain⟩ := finds_suffixChain hdown down.bound first hu.placed hleft
  obtain ⟨w, hw, hoperators⟩ := finds_operators hdown power down.bound left hv.placed h
  rw [hv.ahead, hw.ahead] at hhead
  rw [hu.surroundings, hw.ahead] at hchain
  rw [hv.surroundings, hu.surroundings] at hoperators
  exact ⟨u ++ (v ++ w), by simpa using hu.trans (hv.trans hw), .expr hhead hchain hoperators⟩

theorem finds_statementExpr (hdown : down.Sound) (valueRequired : Bool) :
    Finds (statementExpr down valueRequired) fun c w e r =>
      Derives down.elseRequired (.statementExpr valueRequired) c w e.bare r := by
  intro s e s' hs h
  obtain ⟨s₀, hrecorded, hform⟩ := ok_of_statementExpr h
  refine found_of_record (.statementExpr s.current.kind) ?_
  rw [← hrecorded]
  have hs₀ : s₀.Placed := hrecorded ▸ placed_of_record _ hs
  obtain ⟨hkind, h⟩ | ⟨hkind, next, s₁, hnext, hform⟩ := hform
  · obtain ⟨w, hw, hderives⟩ := finds_expr hdown .default hs₀ h
    refine ⟨w, hw, .plain ?_ ?_ hderives⟩
    · rw [← hw.ahead]
      obtain ⟨hnil, -⟩ | ⟨rest, hrest⟩ := ParseState.sees_current s₀
      · rw [hnil]
        rfl
      · rw [hrest]
        simp [bindsLabel, hkind]
    · rw [← hw.ahead, ParseState.isKeyword_ahead]
      simp [Token.isKeyword, Token.keyword?_eq_none hkind]
  · obtain ⟨hpass, hsees, hcurrent⟩ := passes_of_peek hs₀ hnext
    have hbinds : bindsLabel s₁.ahead = (next.kind = .colon || next.kind.isUpdater) := by
      have hahead : s₁.ahead = s₀.ahead := hpass.ahead.symm
      obtain ⟨rest, hrest⟩ := (ParseState.sees_current s₀).eq_cons (by rw [hkind]; decide)
      rw [hrest] at hahead hsees
      have hrestKind : Lookahead.kind rest = next.kind := hsees.kind
      simp [hahead, bindsLabel, hkind, hrestKind]
    have hfound : Found s₁ s' fun c w r =>
        Derives down.elseRequired (.statementExpr valueRequired) c w e.bare r := by
      obtain ⟨-, h⟩ | ⟨-, h⟩ | ⟨hcolon, hupdater, hform⟩ := hform
      · obtain ⟨w, hw, hderives⟩ := finds_declaration hdown hpass.placed h
        exact ⟨w, hw, .declared hderives⟩
      · obtain ⟨w, hw, hderives⟩ := finds_update hdown hpass.placed h
        exact ⟨w, hw, .updated hderives⟩
      · have hnolabel : bindsLabel s₁.ahead = false := by
          rw [hbinds]
          simp [hcolon, hupdater]
        obtain ⟨hif, h⟩ | ⟨hif, h⟩ := hform
        · obtain ⟨w, hw, hderives⟩ :=
            found_of_conditional hdown hpass.placed (Token.isKeyword_iff.mp hif) h
          rw [hw.ahead] at hnolabel
          exact ⟨w, hw, .chosen hnolabel hderives⟩
        · obtain ⟨w, hw, hderives⟩ := finds_expr hdown .default hpass.placed h
          rw [hw.ahead] at hnolabel
          refine ⟨w, hw, .plain hnolabel ?_ hderives⟩
          rw [← hw.ahead, ParseState.isKeyword_ahead, hif]
    obtain ⟨w, hw, hderives⟩ := hfound
    rw [hpass.surroundings] at hderives
    exact ⟨w, hpass.trans hw, hderives⟩

end Whole

end Parse

/-! ## All levels -/

/-- The calls a level below find expressions, at every number of levels. -/
theorem sound_descent (elseRequired : Bool) (levels : Nat) :
    (descent .standard elseRequired levels).Sound := by
  induction levels with
  | zero =>
    refine ⟨rfl, ?_, ?_⟩
    · intro power s e s' hs h
      cases h
    · intro valueRequired s e s' hs h
      cases h
  | succ levels ih =>
    refine ⟨rfl, ?_, ?_⟩
    · intro power
      have hfinds := Parse.finds_expr ih power
      rw [elseRequired_descent] at hfinds
      exact hfinds
    · intro valueRequired
      have hfinds := Parse.finds_statementExpr ih valueRequired
      rw [elseRequired_descent] at hfinds
      exact hfinds

/-! ## Whole sources -/

/-- A module that is parsed is derived from the tokens of its source. -/
theorem derives_of_parse {source : String} {settings : Settings} {m : Module}
    (h : parse source settings = .ok m) :
    ∃ w stop, TokenStream.ofSource source settings.file = ⟨words w, .ok stop⟩ ∧
      Derives settings.elseRequired (.statements .eof) .outside w m.bare [] := by
  obtain ⟨s, s', hstart, hwhole⟩ := parse_eq_ok_iff.mp h
  obtain ⟨hplaced, houtside, hahead, hending⟩ := ParseState.of_start hstart
  obtain ⟨s₁, hbody, -⟩ := Parse.ok_of_wholeSource hwhole
  obtain ⟨w, hw, hderives⟩ := Parse.finds_statements
    (sound_descent settings.elseRequired s.levels) (by decide) _ hplaced hbody
  rw [elseRequired_descent, houtside] at hderives
  have heof := Parse.kind_of_statements hbody
  have hnil : s₁.ahead = [] := ParseState.ahead_eq_nil.mpr heof
  obtain ⟨-, hstop⟩ := hw.placed.atEnd heof
  refine ⟨w, s₁.current, ?_, ?_⟩
  · have htokens := hw.ahead
    rw [hahead, hnil, List.append_nil] at htokens
    rw [hw.ending, hending] at hstop
    rw [← htokens, ← hstop]
  · rw [hnil] at hderives
    exact hderives

end SurfaceGrammar

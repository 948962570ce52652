import SurfaceGrammar.Proofs.Parse.Step
import SurfaceGrammar.Proofs.Tree.Nodes

/-!
# Where a parse stands among the tokens

In a source whose tokens stand one after another, a parse has passed the tokens that end at or
before `lastEnd`, and the others start at its position or behind it. What a production reads lies
between the position at which it begins and the `lastEnd` at which it stops. So the nodes that
were read one after another are in order, whatever tokens stand between them, and the node around
them is well placed if it starts and stops with tokens of its own.

* `Layout`: a source whose tokens stand one after another.
* `ParseState.StandsIn`: what holds of the states of a parse of such a source.
* `Row`: between two states nodes were read that lie in order.
* `Takes`: between two states one token was passed.
* `Row.trans`: rows one after another.
* `Row.node`, `Row.enclosed`, `Row.extended`, `Row.joined`: the node around a row.
* `Closed`: only closing parentheses were passed after a span.
-/

namespace SurfaceGrammar

/-! ## Sources -/

/-- A source whose tokens stand one after another. -/
structure Layout where
  file : String
  size : Nat
  stream : TokenStream
  laidOut : stream.LaidOut file size

namespace Layout

/-- The tokens of the source, without the one for its end. -/
def tokens (L : Layout) : List Token := L.stream.tokens

/-- Where the last of some tokens ends, or where the source begins. -/
def endOf (L : Layout) (passed : List Token) : Position :=
  (passed.getLast?.map fun t => t.span.stop).getD ⟨0, L.file⟩

@[simp] theorem endOf_append_singleton (L : Layout) (passed : List Token) (t : Token) :
    L.endOf (passed ++ [t]) = t.span.stop := by
  simp [endOf]

variable {L : Layout} {before after : List Token} {t u : Token}

theorem liesIn (ht : t ∈ L.tokens) : t.span.LiesIn L.file L.size :=
  L.laidOut.tokens t ht

theorem precedes (h : L.tokens = before ++ after) (ht : t ∈ before) (hu : u ∈ after) :
    t.span.Precedes u.span := by
  have hordered : L.tokens.Pairwise _ := L.laidOut.ordered
  rw [h] at hordered
  exact (List.pairwise_append.mp hordered).2.2 t ht u hu

end Layout

/-! ## States -/

namespace ParseState

/-- What holds of the states of a parse: the tokens that were passed and those ahead are the
tokens of the source, and `lastEnd` is where the last token that was passed ends. -/
structure StandsIn (L : Layout) (s : ParseState) : Prop extends s.Placed where
  ending_eq : s.upcoming.ending = L.stream.ending
  split : ∃ passed, L.tokens = passed ++ s.ahead ∧ s.lastEnd = L.endOf passed

namespace StandsIn

variable {L : Layout} {s s' : ParseState} {t : Token}

/-- The tokens that were not passed start where the parse stands, or behind it. -/
theorem position_le (h : s.StandsIn L) (ht : t ∈ s.ahead) :
    s.position.byte ≤ t.span.start.byte := by
  obtain ⟨passed, htokens, -⟩ := h.split
  have hne : s.current.kind ≠ .eof := by
    intro heof
    rw [ahead_eq_nil.mpr heof] at ht
    cases ht
  rw [ahead_of_ne_eof hne] at ht htokens
  obtain rfl | ht := List.mem_cons.mp ht
  · exact Nat.le_refl _
  · have hcurrent : s.current ∈ L.tokens := by simp [htokens]
    have hprecedes : s.current.span.Precedes t.span :=
      Layout.precedes (htokens.trans (List.append_cons ..)) (by simp) ht
    exact Nat.le_of_lt (Nat.lt_of_lt_of_le (Layout.liesIn hcurrent).start_lt_stop hprecedes)

/-- The tokens that were passed end before the parse stands. -/
theorem stop_le_position {passed : List Token} (h : s.StandsIn L)
    (htokens : L.tokens = passed ++ s.ahead) (ht : t ∈ passed) :
    t.span.stop.byte ≤ s.position.byte := by
  by_cases heof : s.current.kind = .eof
  · have hmem : t ∈ L.tokens := by rw [htokens]; exact List.mem_append_left _ ht
    obtain ⟨-, hending⟩ := h.atEnd heof
    obtain ⟨-, hbyte⟩ := L.laidOut.ending s.current (by rw [← h.ending_eq, hending])
    rw [position, hbyte]
    exact (Layout.liesIn hmem).stop_le
  · rw [ahead_of_ne_eof heof] at htokens
    exact Layout.precedes htokens ht (by simp)

theorem lastEnd_le_position (h : s.StandsIn L) : s.lastEnd.byte ≤ s.position.byte := by
  obtain ⟨passed, htokens, hlast⟩ := h.split
  cases hpassed : passed.getLast? with
  | none =>
    rw [hlast, Layout.endOf, hpassed]
    exact Nat.zero_le _
  | some t =>
    rw [hlast, Layout.endOf, hpassed]
    exact h.stop_le_position htokens (List.mem_of_getLast? hpassed)

/-- A token that was passed ends at or before `lastEnd`. -/
theorem stop_le_lastEnd {passed : List Token} (h : s.StandsIn L)
    (htokens : L.tokens = passed ++ s.ahead) (ht : t ∈ passed) :
    t.span.stop.byte ≤ s.lastEnd.byte := by
  obtain ⟨passed', htokens', hlast⟩ := h.split
  obtain rfl : passed = passed' := List.append_cancel_right (htokens.symm.trans htokens')
  obtain rfl | ⟨front, last, hconcat⟩ := List.eq_nil_or_concat passed
  · cases ht
  · rw [List.concat_eq_append] at hconcat
    subst hconcat
    rw [hlast, Layout.endOf_append_singleton]
    obtain ht | ht := List.mem_append.mp ht
    · have hlies : last.span.LiesIn L.file L.size := Layout.liesIn (by simp [htokens])
      have hprecedes : t.span.Precedes last.span :=
        Layout.precedes (htokens.trans (List.append_assoc ..)) ht (by simp)
      exact Nat.le_trans hprecedes (Nat.le_of_lt hlies.start_lt_stop)
    · exact Nat.le_of_eq (by rw [List.mem_singleton.mp ht])

/-- A token that ends at or before `lastEnd` was passed. -/
theorem mem_passed {passed : List Token} (h : s.StandsIn L)
    (htokens : L.tokens = passed ++ s.ahead) (ht : t ∈ L.tokens)
    (hle : t.span.stop.byte ≤ s.lastEnd.byte) : t ∈ passed := by
  have hlies := Layout.liesIn ht
  rw [htokens] at ht
  obtain ht | ht := List.mem_append.mp ht
  · exact ht
  · have hstart := h.position_le ht
    have hlast := h.lastEnd_le_position
    have := hlies.start_lt_stop
    omega

/-- A state that differs only in what no position depends on. -/
theorem congr (h : s.StandsIn L) (hcurrent : s'.current = s.current)
    (hupcoming : s'.upcoming = s.upcoming) (hlastEnd : s'.lastEnd = s.lastEnd) :
    s'.StandsIn L where
  toPlaced := h.toPlaced.congr hcurrent hupcoming
  ending_eq := by rw [hupcoming]; exact h.ending_eq
  split := by rw [ahead_congr hcurrent hupcoming, hlastEnd]; exact h.split

end StandsIn

end ParseState

/-! ## Rows -/

variable {L : Layout} {s s₁ s₂ s' : ParseState} {ns ms : List Node} {n a b : Node} {t : Token}

/-- Between two states of a parse nodes were read that are well placed and lie in order. -/
structure Row (L : Layout) (s s' : ParseState) (ns : List Node) : Prop where
  stands : s'.StandsIn L
  position : s.position.byte ≤ s'.position.byte
  lastEnd : s.lastEnd.byte ≤ s'.lastEnd.byte
  passed : s'.lastEnd = s.lastEnd ∨ ∃ t ∈ L.tokens, s'.lastEnd = t.span.stop
  everywhere : ∀ n ∈ ns, n.Everywhere (Node.WellPlaced L.file L.size L.tokens)
  after : ∀ n ∈ ns, s.position.byte ≤ n.span.start.byte
  before : ∀ n ∈ ns, n.span.stop.byte ≤ s'.lastEnd.byte
  ordered : ns.Pairwise fun a b => a.span.Precedes b.span

/-- Between two states the token at which the parse stood was passed. -/
structure Takes (L : Layout) (s : ParseState) (t : Token) (s' : ParseState) : Prop
    extends Row L s s' [] where
  current : t = s.current
  mem : t ∈ L.tokens
  ahead : s.ahead = t :: s'.ahead
  lastEnd_eq : s'.lastEnd = t.span.stop

namespace Row

/-- A step that changes only what no position depends on. -/
theorem of_same (h : s.StandsIn L) (hcurrent : s'.current = s.current)
    (hupcoming : s'.upcoming = s.upcoming) (hlastEnd : s'.lastEnd = s.lastEnd) : Row L s s' [] where
  stands := h.congr hcurrent hupcoming hlastEnd
  position := Nat.le_of_eq (by rw [ParseState.position, ParseState.position, hcurrent])
  lastEnd := Nat.le_of_eq (by rw [hlastEnd])
  passed := .inl hlastEnd
  everywhere := by simp
  after := by simp
  before := by simp
  ordered := .nil

theorem refl (h : s.StandsIn L) : Row L s s [] :=
  .of_same h rfl rfl rfl

/-- Two rows, one after the other. -/
theorem trans (h : Row L s s₁ ns) (h' : Row L s₁ s₂ ms) : Row L s s₂ (ns ++ ms) where
  stands := h'.stands
  position := Nat.le_trans h.position h'.position
  lastEnd := Nat.le_trans h.lastEnd h'.lastEnd
  passed := by
    obtain hsame | hpassed := h'.passed
    · rw [hsame]
      exact h.passed
    · exact .inr hpassed
  everywhere n hn := (List.mem_append.mp hn).elim (h.everywhere n) (h'.everywhere n)
  after n hn := (List.mem_append.mp hn).elim (h.after n) fun hn =>
    Nat.le_trans h.position (h'.after n hn)
  before n hn := (List.mem_append.mp hn).elim
    (fun hn => Nat.le_trans (h.before n hn) h'.lastEnd) (h'.before n)
  ordered := by
    refine List.pairwise_append.mpr ⟨h.ordered, h'.ordered, fun a ha b hb => ?_⟩
    exact Nat.le_trans (h.before a ha)
      (Nat.le_trans h.stands.lastEnd_le_position (h'.after b hb))

/-- A row after steps that read no node. -/
theorem skip (h : Row L s s₁ []) (h' : Row L s₁ s₂ ns) : Row L s s₂ ns :=
  h.trans h'

/-- A row before steps that read no node. -/
theorem last (h : Row L s s₁ ns) (h' : Row L s₁ s₂ []) : Row L s s₂ ns := by
  simpa using h.trans h'

/-- A step whose end differs only in what no position depends on. -/
theorem congr (h : Row L s s₁ ns) (hcurrent : s'.current = s₁.current)
    (hupcoming : s'.upcoming = s₁.upcoming) (hlastEnd : s'.lastEnd = s₁.lastEnd) :
    Row L s s' ns :=
  h.last (.of_same h.stands hcurrent hupcoming hlastEnd)

theorem wellPlaced (h : Row L s s' ns) (hn : n ∈ ns) :
    n.WellPlaced L.file L.size L.tokens :=
  (h.everywhere n hn).here

/-! ### The node around a row -/

/-- The node around a row, with a span of its own. -/
theorem node (h : Row L s s' n.children) (hstart : ∃ t ∈ L.tokens, n.span.start = t.span.start)
    (hstop : ∃ t ∈ L.tokens, n.span.stop = t.span.stop)
    (hlt : n.span.start.byte < n.span.stop.byte)
    (hafter : s.position.byte ≤ n.span.start.byte)
    (hbefore : n.span.stop.byte ≤ s'.lastEnd.byte)
    (hwithin : ∀ c ∈ n.children, c.span.Within n.span) (hedges : n.Edges L.tokens) :
    Row L s s' [n] where
  stands := h.stands
  position := h.position
  lastEnd := h.lastEnd
  passed := h.passed
  everywhere := by
    obtain ⟨t, ht, hstart⟩ := hstart
    obtain ⟨u, hu, hstop⟩ := hstop
    have hlies : n.span.LiesIn L.file L.size := by
      refine ⟨?_, ?_, hlt, ?_⟩
      · rw [hstart]
        exact (Layout.liesIn ht).startFile
      · rw [hstop]
        exact (Layout.liesIn hu).stopFile
      · rw [hstop]
        exact (Layout.liesIn hu).stop_le
    intro m hm
    rw [List.mem_singleton.mp hm]
    exact .intro ⟨hlies, ⟨t, ht, hstart⟩, ⟨u, hu, hstop⟩, hwithin, h.ordered, hedges⟩ h.everywhere
  after := by simpa using hafter
  before := by simpa using hbefore
  ordered := List.pairwise_singleton _ _

/-- A node that starts with a token of its own and stops where the parse stands. -/
theorem enclosed (ht : Takes L s t s₁) (h : Row L s₁ s' n.children)
    (hspan : n.span = ⟨t.span.start, s'.lastEnd⟩) (hedges : n.Edges L.tokens) :
    Row L s s' [n] := by
  have hposition : s.position = t.span.start := by rw [ht.current]; rfl
  have hlt := (Layout.liesIn ht.mem).start_lt_stop
  have hlast := h.lastEnd
  rw [ht.lastEnd_eq] at hlast
  refine (ht.toRow.skip h).node ⟨t, ht.mem, by rw [hspan]⟩ ?_ ?_ ?_ ?_ (fun c hc => ?_) hedges
  · rw [hspan]
    obtain hsame | hpassed := h.passed
    · exact ⟨t, ht.mem, hsame.trans ht.lastEnd_eq⟩
    · exact hpassed
  · rw [hspan]
    exact Nat.lt_of_lt_of_le hlt hlast
  · exact Nat.le_of_eq (by rw [hspan, hposition])
  · exact Nat.le_of_eq (by rw [hspan])
  · rw [hspan]
    exact ⟨hposition ▸ Nat.le_trans ht.position (h.after c hc), h.before c hc⟩

/-- A node that starts with its first child and stops where the parse stands. -/
theorem extended (h : Row L s s' (a :: ns)) (hchildren : n.children = a :: ns)
    (hspan : n.span = ⟨a.span.start, s'.lastEnd⟩)
    (hstop : ∃ t ∈ L.tokens, s'.lastEnd = t.span.stop) (hedges : n.Edges L.tokens) :
    Row L s s' [n] := by
  have ha := h.wellPlaced List.mem_cons_self
  have hlt := ha.liesIn.start_lt_stop
  have hle := h.before a List.mem_cons_self
  refine Row.node (hchildren ▸ h) (by rw [hspan]; exact ha.start) (by rw [hspan]; exact hstop)
    ?_ ?_ ?_ (fun c hc => ?_) hedges
  · rw [hspan]
    exact Nat.lt_of_lt_of_le hlt hle
  · rw [hspan]
    exact h.after a List.mem_cons_self
  · exact Nat.le_of_eq (by rw [hspan])
  · rw [hchildren] at hc
    rw [hspan]
    refine ⟨?_, h.before c hc⟩
    obtain rfl | hc' := List.mem_cons.mp hc
    · exact Nat.le_refl _
    · have hprecedes : a.span.Precedes c.span := (List.pairwise_cons.mp h.ordered).1 c hc'
      exact Nat.le_trans (Nat.le_of_lt hlt) hprecedes

/-- A node from the start of one child to the end of another. -/
theorem joined (h : Row L s s' [a, b]) (hchildren : n.children = [a, b])
    (hspan : n.span = a.span.join b.span) (hedges : n.Edges L.tokens) : Row L s s' [n] := by
  have ha := h.wellPlaced (n := a) (by simp)
  have hb := h.wellPlaced (n := b) (by simp)
  have hlta := ha.liesIn.start_lt_stop
  have hltb := hb.liesIn.start_lt_stop
  have hprecedes : a.span.stop.byte ≤ b.span.start.byte :=
    (List.pairwise_cons.mp h.ordered).1 b (by simp)
  refine Row.node (hchildren ▸ h) (by rw [hspan]; exact ha.start) (by rw [hspan]; exact hb.stop)
    ?_ ?_ ?_ (fun c hc => ?_) hedges
  · rw [hspan]
    dsimp only [Span.join]
    omega
  · rw [hspan]
    exact h.after a (by simp)
  · rw [hspan]
    exact h.before b (by simp)
  · rw [hchildren] at hc
    rw [hspan]
    dsimp only [Span.Within, Span.join]
    obtain rfl | rfl : c = a ∨ c = b := by simpa using hc
    · omega
    · omega

/-- A node from a token of its own to the end of its only child. -/
theorem labelled (ht : Takes L s t s₁) (h : Row L s₁ s' [a]) (hchildren : n.children = [a])
    (hspan : n.span = t.span.join a.span) (hedges : n.Edges L.tokens) : Row L s s' [n] := by
  have hposition : s.position = t.span.start := by rw [ht.current]; rfl
  have hlt := (Layout.liesIn ht.mem).start_lt_stop
  have ha := h.wellPlaced List.mem_cons_self
  have hlta := ha.liesIn.start_lt_stop
  have hstart : t.span.start.byte ≤ a.span.start.byte :=
    hposition ▸ Nat.le_trans ht.position (h.after a List.mem_cons_self)
  refine Row.node (hchildren ▸ ht.toRow.skip h) ⟨t, ht.mem, by rw [hspan]; rfl⟩
    (by rw [hspan]; exact ha.stop) ?_ ?_ ?_ (fun c hc => ?_) hedges
  · rw [hspan]
    exact Nat.lt_of_le_of_lt hstart hlta
  · exact Nat.le_of_eq (by rw [hspan, hposition]; rfl)
  · rw [hspan]
    exact h.before a List.mem_cons_self
  · rw [hchildren, List.mem_singleton] at hc
    rw [hspan, hc]
    exact ⟨hstart, Nat.le_refl _⟩

/-- A node with the span of its only child. -/
theorem covered (h : Row L s s' [a]) (hchildren : n.children = [a]) (hspan : n.span = a.span)
    (hedges : n.Edges L.tokens) : Row L s s' [n] := by
  have ha := h.wellPlaced (n := a) (by simp)
  refine Row.node (hchildren ▸ h) (hspan ▸ ha.start) (hspan ▸ ha.stop)
    (hspan ▸ ha.liesIn.start_lt_stop) (hspan ▸ h.after a (by simp))
    (hspan ▸ h.before a (by simp)) (fun c hc => ?_) hedges
  rw [hchildren, List.mem_singleton] at hc
  rw [hc, hspan]
  exact ⟨Nat.le_refl _, Nat.le_refl _⟩

end Row

/-! ## Closing parentheses after a span -/

/-- Of the tokens that end at or before a position, only closing parentheses follow the span. -/
def Closed (L : Layout) (span : Span) (reached : Position) : Prop :=
  ∀ t ∈ L.tokens, span.Precedes t.span → t.span.stop.byte ≤ reached.byte → t.kind = .closeParen

namespace Closed

variable {span : Span}

/-- Nothing follows a span that stops where the parse stands. -/
theorem of_stop {start : Position} {reached : Position} : Closed L ⟨start, reached⟩ reached := by
  intro t ht hprecedes hle
  have hlt := (Layout.liesIn ht).start_lt_stop
  dsimp only [Span.Precedes] at hprecedes
  omega

/-- One more closing parenthesis follows the span. -/
theorem takes (h : Closed L span s.lastEnd) (ht : Takes L s t s') (hs : s.StandsIn L)
    (hkind : t.kind = .closeParen) : Closed L span s'.lastEnd := by
  intro u hu hprecedes hle
  obtain ⟨passed, htokens, -⟩ := hs.split
  have htokens' : L.tokens = (passed ++ [t]) ++ s'.ahead := by
    rw [htokens, ht.ahead, List.append_assoc]
    rfl
  obtain hpassed | hlast := List.mem_append.mp (ht.stands.mem_passed htokens' hu hle)
  · exact h u hu hprecedes (hs.stop_le_lastEnd htokens hpassed)
  · rw [List.mem_singleton.mp hlast]
    exact hkind

/-- The token at which the parse stands follows the span. -/
theorem isFollowedBy (h : Closed L span s.lastEnd) (ht : Takes L s t s') (hs : s.StandsIn L)
    (hle : span.stop.byte ≤ s.lastEnd.byte) : span.IsFollowedBy L.tokens t where
  mem := ht.mem
  precedes := by
    have hposition : s.position = t.span.start := by rw [ht.current]; rfl
    rw [Span.Precedes, ← hposition]
    exact Nat.le_trans hle hs.lastEnd_le_position
  between u hu hprecedes hbefore := by
    obtain ⟨passed, htokens, -⟩ := hs.split
    refine h u hu hprecedes (hs.stop_le_lastEnd htokens ?_)
    have hlt := (Layout.liesIn hu).start_lt_stop
    have hmem := hu
    rw [htokens] at hmem
    obtain hpassed | hahead := List.mem_append.mp hmem
    · exact hpassed
    · have hposition : s.position = t.span.start := by rw [ht.current]; rfl
      have hstart := hs.position_le hahead
      rw [hposition] at hstart
      rw [Span.Precedes] at hbefore
      omega

end Closed

/-! ## Steps -/

namespace Parse

/-- Passing the token at which a parse stands. -/
theorem takes_of_advance (hs : s.StandsIn L) (hne : s.current.kind ≠ .eof)
    (h : advance s = .ok t s') : Takes L s t s' := by
  obtain ⟨rfl, hpass⟩ := passes_of_advance hs.toPlaced hne h
  have hlast : s'.lastEnd = s.current.span.stop := by
    unfold advance at h
    split at h
    · cases h
    · cases h
      rfl
  obtain ⟨passed, htokens, hend⟩ := hs.split
  have hahead : s.ahead = s.current :: s'.ahead := hpass.ahead
  have htokens' : L.tokens = (passed ++ [s.current]) ++ s'.ahead := by
    rw [htokens, hahead, List.append_assoc]
    rfl
  have hmem : s.current ∈ L.tokens := by simp [htokens']
  have hstands : s'.StandsIn L :=
    ⟨hpass.placed, hpass.ending.trans hs.ending_eq, _, htokens', by simpa using hlast⟩
  have hlt : s.position.byte < s'.lastEnd.byte := by
    rw [hlast]
    exact (Layout.liesIn hmem).start_lt_stop
  refine ⟨⟨hstands, ?_, ?_, .inr ⟨_, hmem, hlast⟩, by simp, by simp, by simp, .nil⟩, rfl, hmem,
    hahead, hlast⟩
  · have := hstands.lastEnd_le_position
    omega
  · have := hs.lastEnd_le_position
    omega

theorem takes_of_advance_kind {kind : TokenKind} (hs : s.StandsIn L)
    (hkind : s.current.kind = kind) (hne : kind ≠ .eof) (h : advance s = .ok t s') :
    Takes L s t s' :=
  takes_of_advance hs (hkind ▸ hne) h

theorem takes_of_expectOr {kind : TokenKind} {expected : List TokenKind} (hs : s.StandsIn L)
    (hne : kind ≠ .eof) (h : expectOr kind expected s = .ok t s') :
    Takes L s t s' ∧ t.kind = kind := by
  unfold expectOr at h
  rw [bind_currentKind] at h
  split at h
  · next hkind =>
    have ht := takes_of_advance_kind hs hkind hne h
    exact ⟨ht, by rw [ht.current]; exact hkind⟩
  · exact absurd h unexpected_ne_ok

theorem takes_of_expect {kind : TokenKind} (hs : s.StandsIn L) (hne : kind ≠ .eof)
    (h : expect kind s = .ok t s') : Takes L s t s' ∧ t.kind = kind :=
  takes_of_expectOr hs hne h

theorem row_of_peek (hs : s.StandsIn L) (h : peek s = .ok t s') :
    Row L s s' [] ∧ s'.lastEnd = s.lastEnd := by
  unfold peek at h
  split at h
  · cases h
  · split at h
    · cases h
      exact ⟨.refl hs, rfl⟩
    · cases h
      exact ⟨.of_same hs rfl rfl rfl, rfl⟩

end Parse

end SurfaceGrammar

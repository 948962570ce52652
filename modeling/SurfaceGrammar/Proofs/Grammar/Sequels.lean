import SurfaceGrammar.Proofs.Grammar.Parallel

/-!
# Statements in front of what follows

The statements of a whole source are read in the same way where a semicolon with other statements
follows them, or the curly bracket that closes a block. What is left to be read is then what the
list would be if it began there. So a list of statements is cut where one source was put behind
another one.

* `Parse.statements_of_semicolon`, `Parse.statements_of_close`, `Parse.statements_of_content`: one
  round of a list of statements.
* `Parse.exists_statements_of_sequel`: the statements of a source in front of what follows.
* `Parse.statements_of_bound`: rounds that are not needed change nothing.
-/

namespace SurfaceGrammar

variable {α : Type} {K : Correspondence α}

/-- If the first of two parses that belong together succeeds, the second one does. -/
theorem Agree.exists_ok {β γ : Type} {P : β → γ → Prop} {m : Parse β} {m' : Parse γ}
    {s s' t : ParseState} {b : β} (h : Agree K P (m s) (m' s')) (hm : m s = .ok b t) :
    ∃ c t', m' s' = .ok c t' ∧ P b c ∧ t.Follows K t' := by
  rw [hm] at h
  generalize m' s' = r at h
  cases h with
  | ok value follows => exact ⟨_, _, rfl, value, follows⟩

namespace Parse

variable {down : Descent} {close : TokenKind} {bound : Nat} {s s' t u : ParseState}

/-- A step after another one may be replaced where the two together do not reach a bound. -/
theorem bind_congr_of_ne_exhausted {β γ : Type} {m : Parse β} {f g : β → Parse γ}
    (h : ∀ t, (m >>= f) s ≠ .error .exhausted t)
    (hfg : ∀ b u, (∀ t, f b u ≠ .error .exhausted t) → g b u = f b u) :
    (m >>= g) s = (m >>= f) s := by
  cases hm : m s with
  | ok b u =>
    rw [bind_of_ok hm] at h ⊢
    rw [bind_of_ok hm]
    exact hfg b u h
  | error failure u => rw [bind_of_error hm, bind_of_error hm]

/-! ## One round -/

theorem statements_of_semicolon (h : s.current.kind = .semicolon) :
    statements down close (bound + 1) s =
      (advance >>= fun _ => statements down close bound) s := by
  rw [statements, bind_standsAt, if_pos (decide_eq_true h)]

theorem statements_of_close (h : s.current.kind = close) (hclose : close ≠ .semicolon) :
    statements down close (bound + 1) s = .ok [] s := by
  rw [statements, bind_standsAt, if_neg (by simpa [h] using hclose), bind_standsAt,
    if_pos (decide_eq_true h)]
  rfl

/-- A list that another token closes is not closed by the end of a source. -/
theorem statements_of_eof (h : s.current.kind = .eof) (hclose : s.current.kind ≠ close) :
    statements down close (bound + 1) s = unexpected [close] s := by
  rw [statements, bind_standsAt, if_neg (by simp [h]), bind_standsAt,
    if_neg (by simpa using hclose), bind_standsAt, if_pos (decide_eq_true h)]

/-- A round with a statement, whose end is read after it. -/
theorem statements_of_content (hsemicolon : s.current.kind ≠ .semicolon)
    (hclose : s.current.kind ≠ close) (heof : s.current.kind ≠ .eof) :
    statements down close (bound + 1) s =
      (statementContent down >>= fun x => terminator close >>= fun _ =>
          (x :: ·) <$> statements down close bound)
        { s with events := s.events.push (.statement s.current.kind) } := by
  rw [statements, bind_standsAt, if_neg (by simpa using hsemicolon), bind_standsAt,
    if_neg (by simpa using hclose), bind_standsAt, if_neg (by simpa using heof), bind_statement]
  rfl

/-- No statement begins with a curly bracket that closes a block. -/
theorem fails_statementContent (hdown : down.Agrees K) (h : s.current.kind = .closeCurly) :
    Fails (statementContent down) s := by
  have hword : s.current.isKeyword .type = false := by
    rw [Token.isKeyword, Token.keyword?_eq_none (by rw [h]; decide)]
    rfl
  obtain ⟨failure, t, hfail⟩ := hdown.fails_statementExpr false (s := s)
    (by rw [h]; rfl)
  refine ⟨failure, t, ?_⟩
  unfold statementContent beginsTypeDefinition
  rw [bind_assoc, bind_current, if_neg (by rw [hword]; decide), pure_bind,
    if_neg (by decide)]
  change EStateM.map Stmt.expression (down.statementExpr false) s = _
  unfold EStateM.map
  rw [hfail]

/-! ## What follows a source -/

/-- A statement that ends in a source with another statement behind it ends in every list. -/
theorem exists_terminator (h : s.Follows K s') (ht : K.token s.current s'.current)
    (hne : s.current.kind ≠ .eof) (close : TokenKind) (hterminator : terminator .eof s = .ok () t) :
    ∃ t', terminator close s' = .ok () t' ∧ t.Follows K t' := by
  unfold terminator
  rw [bind_current, K.kind ht, h.newlineBefore hne]
  obtain ⟨hsemicolon, o, hadvance⟩ | ⟨hsemicolon, rfl, hend⟩ := ok_of_terminator hterminator
  · obtain ⟨o', t', hadvance', -, hfollows⟩ := (agree_advance h.toMeets hne).exists_ok hadvance
    rw [if_pos hsemicolon]
    exact ⟨t', by rw [bind_of_ok hadvance']; rfl, hfollows⟩
  · have hline := (hend.resolve_left hne).resolve_left hne
    rw [if_neg hsemicolon, if_pos (.inr (.inr hline))]
    exact ⟨s', rfl, h⟩

/-- Behind the last statement of a source the other parse reads its end and what follows. Reading
on from the end of the source gives the same, as the end of a statement is no statement. -/
theorem exists_terminator_of_sequel (down : Descent) {q : Sequel} (h : s'.current = q.stop)
    (hstop : q.stop.kind = .semicolon ∨ q.stop.kind = close) (bound : Nat) :
    ∃ m, (terminator close >>= fun _ => statements down close (bound + 1)) s' =
      statements down close (m + 1) s' := by
  unfold terminator
  rw [bind_assoc, bind_current, h]
  by_cases hsemicolon : q.stop.kind = .semicolon
  · refine ⟨bound + 1, ?_⟩
    rw [statements_of_semicolon (by rw [h]; exact hsemicolon), if_pos hsemicolon, bind_assoc]
    rfl
  · have hkind : q.stop.kind = close := hstop.resolve_left hsemicolon
    exact ⟨bound, by rw [if_neg hsemicolon, if_pos (.inl hkind)]; rfl⟩

/-- The statements of a source are read in front of what follows, and then the rest of the list.
The induction is on the bound of the loop. -/
theorem exists_statements_of_sequel (hdown : down.Agrees K) {q : Sequel} (hq : K.sequel = some q)
    (hclose : close = .eof ∨ close = .closeCurly)
    (hstop : q.stop.kind = .semicolon ∨ q.stop.kind = close) {body : List (Stmt Span)}
    (h : s.Meets K s') (hrun : statements down .eof bound s = .ok body t) :
    ∃ body' t' m, K.Alike (fun f => List.map (Stmt.mapMark f)) body body' ∧ t.Meets K t' ∧
      t.current.kind = .eof ∧
      statements down close bound s' = ((body' ++ ·) <$> statements down close (m + 1)) t' := by
  have hsome : K.sequel.isSome = true := by rw [hq]; rfl
  have hcolon : K.Colonless := fun p hp hkind => by
    obtain rfl := Option.some.inj (hp.symm.trans hq)
    rcases hclose with rfl | rfl <;> simp [hkind] at hstop
  induction bound generalizing s s' body with
  | zero => cases hrun
  | succ bound ih =>
    obtain ⟨ht, -, hne⟩ | ⟨heof, -⟩ := h.cases_kind
    · have hne := hne hsome
      by_cases hsemicolon : s.current.kind = .semicolon
      · rw [statements_of_semicolon hsemicolon] at hrun
        obtain ⟨o, s₁, hadvance, hrun⟩ := ok_of_bind hrun
        obtain ⟨o', s₁', hadvance', -, hfollows⟩ := (agree_advance h hne).exists_ok hadvance
        rw [statements_of_semicolon ((K.kind ht).trans hsemicolon), bind_of_ok hadvance']
        exact ih hfollows.toMeets hrun
      · rw [statements_of_content hsemicolon hne hne] at hrun
        obtain ⟨x, u, hcontent, hrun⟩ := ok_of_bind hrun
        obtain ⟨⟨⟩, v, hterminator, hrun⟩ := ok_of_bind hrun
        obtain ⟨rest, hrest, rfl⟩ := ok_of_map hrun
        obtain ⟨x', u', hcontent', hx, hu⟩ :=
          (agree_content hdown hcolon (meets_of_record _ _ h)).exists_ok hcontent
        have hcurly : s.current.kind ≠ .closeCurly := fun hcurly => by
          obtain ⟨failure, w, hfail⟩ := fails_statementContent hdown
            (s := { s with events := s.events.push (.statement s.current.kind) }) hcurly
          rw [hfail] at hcontent
          cases hcontent
        have hkind : s'.current.kind ≠ close := by
          rw [K.kind ht]
          rcases hclose with rfl | rfl
          · exact hne
          · exact hcurly
        rw [statements_of_content (by rw [K.kind ht]; exact hsemicolon) hkind
          (by rw [K.kind ht]; exact hne), bind_of_ok hcontent']
        obtain ⟨hut, -, hune⟩ | ⟨heof, q', hq', hcurrent, -⟩ := hu.cases_kind
        · obtain ⟨v', hterminator', hv⟩ := exists_terminator hu hut (hune hsome) close hterminator
          obtain ⟨rest', t', m, hrest', hmeets, heof, hrun'⟩ := ih hv.toMeets hrest
          refine ⟨x' :: rest', t', m, ?_, hmeets, heof, ?_⟩
          · simp only [Correspondence.Alike, List.map_cons, K.statement hx, K.statements hrest']
          · rw [bind_of_ok hterminator', map_congr hrun', ← comp_map]
            rfl
        · -- The first parse is at its end, so this was the last statement of the source.
          obtain rfl : q' = q := Option.some.inj (hq'.symm.trans hq)
          rw [terminator_of_eof .eof heof] at hterminator
          cases hterminator
          obtain _ | bound := bound
          · cases hrest
          · rw [statements_of_close heof (by decide)] at hrest
            cases hrest
            obtain ⟨m, hm⟩ := exists_terminator_of_sequel down hcurrent hstop bound
            refine ⟨[x'], u', m, ?_, hu.toMeets, heof, ?_⟩
            · simp only [Correspondence.Alike, List.map_cons, List.map_nil, K.statement hx]
            · have hmap : (terminator close >>= fun _ => (x' :: ·) <$>
                  statements down close (bound + 1)) =
                  (x' :: ·) <$> (terminator close >>= fun _ =>
                    statements down close (bound + 1)) := by
                rw [map_bind]
              rw [hmap]
              exact map_congr hm
    · rw [statements_of_close heof (by decide)] at hrun
      cases hrun
      refine ⟨[], s', bound, rfl, h, heof, ?_⟩
      exact (congrFun (id_map (statements down close (bound + 1))) s').symm

/-! ## Bounds -/

/-- A list of statements that does not reach its bound is the same with a greater one. -/
theorem statements_of_bound {more : Nat} (hmore : bound ≤ more)
    (h : ∀ t, statements down close bound s ≠ .error .exhausted t) :
    statements down close more s = statements down close bound s := by
  induction bound generalizing more s with
  | zero => exact absurd rfl (h s)
  | succ bound ih =>
    obtain ⟨more, rfl⟩ : ∃ n, more = n + 1 := ⟨more - 1, by omega⟩
    have hrest {u : ParseState} := ih (s := u) (Nat.le_of_succ_le_succ hmore)
    by_cases hsemicolon : s.current.kind = .semicolon
    · rw [statements_of_semicolon hsemicolon] at h ⊢
      rw [statements_of_semicolon hsemicolon]
      exact bind_congr_of_ne_exhausted h fun o u hu => hrest hu
    · by_cases hclose : s.current.kind = close
      · have hne : close ≠ .semicolon := hclose ▸ hsemicolon
        rw [statements_of_close hclose hne, statements_of_close hclose hne]
      · by_cases heof : s.current.kind = .eof
        · rw [statements_of_eof heof hclose, statements_of_eof heof hclose]
        · rw [statements_of_content hsemicolon hclose heof] at h ⊢
          rw [statements_of_content hsemicolon hclose heof]
          refine bind_congr_of_ne_exhausted h fun x u hu => ?_
          refine bind_congr_of_ne_exhausted hu fun _ v hv => ?_
          refine map_congr (hrest fun w hw => hv w ?_)
          exact map_of_error hw

end Parse

end SurfaceGrammar

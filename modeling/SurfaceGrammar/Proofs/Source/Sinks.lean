import SurfaceGrammar.Diagnostic
import SurfaceGrammar.Proofs.Token.Places

/-!
# Diagnostics in sinks that fail

A diagnostic is a row of pieces that does not depend on the sink. They are written one after
another until a write fails, and none is written after that. A sink that takes as many characters as
fit into a number of bytes does not see where one piece ends and the next one begins, so it holds
what would fit of the whole text.

* `Utf8.IsLongestFit`: the longest beginning of a text within a number of bytes.
* `Diagnostic.pieces`: what is written about an error, piece by piece.
* `Diagnostic.writeLimited_and_write_stops`: what a limited sink reports and holds, and where a
  write into any sink ends.
-/

namespace SurfaceGrammar

/-! ## The longest beginning that fits -/

namespace Utf8

/-- `held` is the longest beginning of a text that takes at most `limit` bytes, cut between
characters. -/
structure IsLongestFit (limit : Nat) (text held : List Char) : Prop where
  isPrefix : held <+: text
  size_le : size held ≤ limit
  longest : ∀ front, front <+: text → size front ≤ limit → front <+: held

variable {limit : Nat} {first second text : List Char}

theorem fit_prefix (limit : Nat) (text : List Char) : fit limit text <+: text := by
  induction text generalizing limit with
  | nil => exact List.prefix_refl _
  | cons c text ih =>
    rw [fit]
    split
    · exact (List.prefix_cons_inj c).mpr (ih _)
    · exact List.nil_prefix

theorem size_fit_le (limit : Nat) (text : List Char) : size (fit limit text) ≤ limit := by
  induction text generalizing limit with
  | nil => exact Nat.zero_le _
  | cons c text ih =>
    rw [fit]
    split
    · next hc =>
      have := ih (limit - c.utf8Size)
      rw [size_cons]
      omega
    · exact Nat.zero_le _

theorem fit_append_of_le (h : size first ≤ limit) :
    fit limit (first ++ second) = first ++ fit (limit - size first) second := by
  induction first generalizing limit with
  | nil => simp
  | cons c first ih =>
    rw [size_cons] at h
    rw [List.cons_append, fit, if_pos (by omega), ih (by omega), size_cons, ← Nat.sub_sub,
      List.cons_append]

theorem fit_append_of_lt (h : limit < size first) :
    fit limit (first ++ second) = fit limit first := by
  induction first generalizing limit with
  | nil => exact absurd h (Nat.not_lt_zero _)
  | cons c first ih =>
    rw [size_cons] at h
    rw [List.cons_append, fit, fit]
    split
    · rw [ih (by omega)]
    · rfl

theorem fit_eq_self_iff : fit limit text = text ↔ size text ≤ limit := by
  constructor
  · intro h
    rw [← h]
    exact size_fit_le limit text
  · intro h
    have happend : fit limit (text ++ []) = text ++ fit (limit - size text) [] :=
      fit_append_of_le h
    rwa [List.append_nil, fit, List.append_nil] at happend

theorem isLongestFit_fit (limit : Nat) (text : List Char) :
    IsLongestFit limit text (fit limit text) where
  isPrefix := fit_prefix limit text
  size_le := size_fit_le limit text
  longest := by
    rintro front ⟨rest, rfl⟩ hsize
    rw [fit_append_of_le hsize]
    exact List.prefix_append _ _

end Utf8

namespace Diagnostic

/-! ## The pieces of a diagnostic -/

/-- The lines that quote the source and mark a column of it. -/
def quotePieces (line : Line) : List String :=
  let number := toString line.number
  let margin := number.length + 2
  let indent := line.text.takeWhile isIndent
  let text := trimEnd (line.text.dropWhile isIndent)
  [padLeft ' ' margin "|" ++ "\n",
    number ++ " | " ++ String.ofList text ++ "\n",
    padLeft ' ' margin "|" ++ " " ++ padLeft '-' (line.column - indent.length + 1) "^"]

/-- What is written about an error, piece by piece. -/
def pieces (error : Error) (source : String) : List String :=
  (match error.kind.tip? with
    | none => "Error: " ++ error.kind.name ++ "\n"
    | some tip => "Error: " ++ error.kind.name ++ " (" ++ tip ++ ")\n") ::
  ("-> " ++ error.position.file ++ "\n") ::
  ((lineAt? source error.position.offset.toNat).map quotePieces).getD []

theorem write_eq_forM {m : Type → Type} [Monad m] [LawfulMonad m] (put : String → m Unit)
    (error : Error) (source : String) :
    write put error source = forM (pieces error source) put := by
  unfold write pieces
  cases error.kind.tip? <;> cases lineAt? source error.position.offset.toNat <;>
    simp [quotePieces]

theorem forM_append (pieces : List String) (text : String) :
    (StateT.run (forM pieces append) text).2 = text ++ String.join pieces := by
  induction pieces generalizing text with
  | nil => exact String.append_empty.symm
  | cons piece pieces ih =>
    rw [List.forM_cons]
    show (StateT.run (forM pieces append) (text ++ piece)).2 = _
    rw [ih, String.join_cons, String.append_assoc]

theorem join_pieces (error : Error) (source : String) :
    String.join (pieces error source) = render error source := by
  rw [render, write_eq_forM, forM_append, String.empty_append]

/-- A sink that does not see where a piece ends receives the diagnostic as one text. -/
theorem write_eq_put_render {m : Type → Type} [Monad m] [LawfulMonad m] {put : String → m Unit}
    (hempty : put "" = pure ())
    (happend : ∀ first second, put (first ++ second) = do put first; put second)
    (error : Error) (source : String) : write put error source = put (render error source) := by
  have hjoin : ∀ pieces : List String, forM pieces put = put (String.join pieces) := by
    intro pieces
    induction pieces with
    | nil => exact hempty.symm
    | cons piece pieces ih => rw [List.forM_cons, ih, String.join_cons, happend]
  rw [write_eq_forM, hjoin, join_pieces]

section Failing

variable {ε σ : Type} {put : String → EStateM ε σ Unit} {s s' : σ}

theorem put_then_of_ok {piece : String} (next : EStateM ε σ Unit) (h : put piece s = .ok () s') :
    (do put piece; next) s = next s' := by
  show EStateM.bind (put piece) (fun _ => next) s = _
  rw [EStateM.bind, h]

theorem put_then_of_error {piece : String} {e : ε} (next : EStateM ε σ Unit)
    (h : put piece s = .error e s') : (do put piece; next) s = .error e s' := by
  show EStateM.bind (put piece) (fun _ => next) s = _
  rw [EStateM.bind, h]

/-- The piece at which a row of writes fails. The ones before it were written, and the sink is as
that write left it. -/
theorem exists_failed_piece {pieces : List String} {e : ε} (h : forM pieces put s = .error e s') :
    ∃ before piece after s₁, pieces = before ++ piece :: after ∧
      forM before put s = .ok () s₁ ∧ put piece s₁ = .error e s' := by
  induction pieces generalizing s with
  | nil => cases h
  | cons piece pieces ih =>
    rw [List.forM_cons] at h
    cases hput : put piece s with
    | error e₁ s₁ =>
      rw [put_then_of_error _ hput] at h
      exact ⟨[], piece, pieces, s, rfl, rfl, hput.trans h⟩
    | ok u s₁ =>
      rw [put_then_of_ok _ hput] at h
      obtain ⟨before, failed, after, s₂, rfl, hbefore, hfailed⟩ := ih h
      refine ⟨piece :: before, failed, after, s₂, rfl, ?_, hfailed⟩
      rw [List.forM_cons, put_then_of_ok _ hput, hbefore]

end Failing

/-! ## A limited sink -/

theorem putLimited_of_le {limit : Nat} {piece : String} {held : List Char}
    (h : Utf8.size piece.toList ≤ limit - Utf8.size held) :
    putLimited limit piece held = .ok () (held ++ piece.toList) := by
  have hfit := Utf8.fit_eq_self_iff.mpr h
  rw [putLimited, if_pos hfit, hfit]

theorem putLimited_of_lt {limit : Nat} {piece : String} {held : List Char}
    (h : limit - Utf8.size held < Utf8.size piece.toList) :
    putLimited limit piece held =
      .error () (held ++ Utf8.fit (limit - Utf8.size held) piece.toList) := by
  rw [putLimited, if_neg (mt Utf8.fit_eq_self_iff.mp (Nat.not_le.mpr h))]

theorem putLimited_append (limit : Nat) (first second : String) :
    putLimited limit (first ++ second) = (do putLimited limit first; putLimited limit second) := by
  funext held
  have hsize : Utf8.size (first ++ second).toList =
      Utf8.size first.toList + Utf8.size second.toList := by
    rw [String.toList_append, Utf8.size_append]
  by_cases hfirst : Utf8.size first.toList ≤ limit - Utf8.size held
  · have hroom : limit - Utf8.size held - Utf8.size first.toList =
        limit - Utf8.size (held ++ first.toList) := by
      rw [Utf8.size_append, Nat.sub_sub]
    rw [put_then_of_ok _ (putLimited_of_le hfirst)]
    by_cases hsecond : Utf8.size second.toList ≤ limit - Utf8.size (held ++ first.toList)
    · rw [putLimited_of_le hsecond, putLimited_of_le (by omega), String.toList_append,
        List.append_assoc]
    · rw [putLimited_of_lt (Nat.not_le.mp hsecond), putLimited_of_lt (by omega),
        String.toList_append, Utf8.fit_append_of_le hfirst, hroom, List.append_assoc]
  · have hlt := Nat.not_le.mp hfirst
    rw [put_then_of_error _ (putLimited_of_lt hlt), putLimited_of_lt (by omega),
      String.toList_append, Utf8.fit_append_of_lt hlt]

theorem putLimited_empty (limit : Nat) : putLimited limit "" = pure () := by
  funext held
  rw [putLimited_of_le (Nat.zero_le _)]
  exact congrArg _ (List.append_nil _)

theorem writeLimited_eq (limit : Nat) (error : Error) (source : String) :
    writeLimited limit error source =
      (decide ((render error source).utf8ByteSize ≤ limit),
        String.ofList (Utf8.fit limit (render error source).toList)) := by
  rw [writeLimited, write_eq_put_render (putLimited_empty limit) (putLimited_append limit),
    ← Utf8.size_toList]
  by_cases h : Utf8.size (render error source).toList ≤ limit
  · rw [putLimited_of_le (by simpa using h), Utf8.fit_eq_self_iff.mpr h, decide_eq_true h,
      List.nil_append]
  · rw [putLimited_of_lt (by simpa using h), decide_eq_false h]
    rfl

/-- A limited sink reports success exactly if the diagnostic fits, and holds the longest beginning
of it that does. Into any sink, the diagnostic is written as a row of pieces that the sink has no
influence on, and a write that fails is the last one. -/
theorem writeLimited_and_write_stops (error : Error) (source : String) :
    (∀ limit,
      ((writeLimited limit error source).1 = true ↔
        (render error source).utf8ByteSize ≤ limit) ∧
      Utf8.IsLongestFit limit (render error source).toList
        (writeLimited limit error source).2.toList) ∧
    ∃ pieces, String.join pieces = render error source ∧
      ∀ {ε σ : Type} (put : String → EStateM ε σ Unit) (s : σ),
        write put error source s = forM pieces put s ∧
        ∀ e s', write put error source s = .error e s' → ∃ before piece after s₁,
          pieces = before ++ piece :: after ∧ forM before put s = .ok () s₁ ∧
          put piece s₁ = .error e s' := by
  refine ⟨fun limit => ?_, pieces error source, join_pieces error source, fun put s => ?_⟩
  · rw [writeLimited_eq, String.toList_ofList]
    exact ⟨decide_eq_true_iff, Utf8.isLongestFit_fit limit _⟩
  · rw [write_eq_forM]
    exact ⟨rfl, fun e s' h => exists_failed_piece h⟩

end Diagnostic

end SurfaceGrammar

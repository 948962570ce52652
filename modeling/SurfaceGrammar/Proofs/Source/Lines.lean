import SurfaceGrammar.Error
import SurfaceGrammar.Proofs.Token.Places
import SurfaceGrammar.Proofs.Token.Samples

/-!
# Lines and columns

The place between two parts of a text lies on a line: its number counts the line feeds before it,
and its column the characters behind the last of them.

* `lastLine`: what stands behind the last line feed of a text.
* `Utf8.split_append`: a text is cut where the bytes of its first part end.
* `lineAt?_append`: the line on which the place between two parts of a text lies.
* `Error.lineColumn?_append`: the line and the column of an error there.
-/

namespace SurfaceGrammar

/-- The characters behind the last line feed. -/
def lastLine (text : List Char) : List Char :=
  (text.reverse.takeWhile (· ≠ '\n')).reverse

theorem lastLine_of_not_mem {text : List Char} (h : '\n' ∉ text) : lastLine text = text := by
  have hall : ∀ c ∈ text.reverse, (decide (c ≠ '\n')) = true := by
    intro c hc
    exact decide_eq_true (ne_of_mem_of_not_mem (List.mem_reverse.mp hc) h)
  have htake : (text.reverse ++ []).takeWhile (· ≠ '\n') =
      text.reverse ++ [].takeWhile (· ≠ '\n') :=
    List.takeWhile_append_of_pos hall
  rw [List.append_nil, List.takeWhile_nil, List.append_nil] at htake
  rw [lastLine, htake, List.reverse_reverse]

/-- What stands before a line feed does not count. -/
theorem lastLine_append_lineFeed (front text : List Char) :
    lastLine (front ++ '\n' :: text) = lastLine text := by
  have hreverse : (front ++ '\n' :: text).reverse = text.reverse ++ '\n' :: front.reverse := by
    simp
  rw [lastLine, hreverse, List.takeWhile_append]
  split
  · next hlength =>
    have hwhole := (List.takeWhile_prefix (· ≠ '\n')).eq_of_length hlength
    rw [List.takeWhile_cons_of_neg (by decide), List.append_nil, lastLine, hwhole]
  · rfl

/-- A text is cut where the bytes of its first part end. -/
theorem Utf8.split_append (front back : List Char) :
    split (size front) (front ++ back) = some (front, back) := by
  induction front with
  | nil => cases back <;> rfl
  | cons c front ih =>
    have hpos := c.utf8Size_pos
    obtain ⟨count, hcount⟩ : ∃ count, size (c :: front) = count + 1 :=
      Nat.exists_eq_add_of_le' (by rw [size_cons]; omega)
    have hrest : count + 1 - c.utf8Size = size front := by
      rw [← hcount, size_cons]
      omega
    rw [hcount, List.cons_append, split, if_pos (by rw [← hcount, size_cons]; omega), hrest, ih]
    rfl

/-! ## The lines of a text -/

section Lines

variable {body front back : List Char}

theorem lines_append_lineFeed (text : List Char) (h : '\n' ∉ body) :
    lines (body ++ '\n' :: text) = (body ++ ['\n']) :: lines text := by
  induction body with
  | nil => rfl
  | cons c body ih =>
    have hc : c ≠ '\n' := fun hc => h (hc ▸ List.mem_cons_self)
    rw [List.cons_append, lines, if_neg hc, ih fun hmem => h (List.mem_cons_of_mem c hmem)]
    rfl

/-- A text without a line feed stands on the first line. -/
theorem lines_append (back : List Char) (h : '\n' ∉ body) : ∃ line rest,
    lines back = line :: rest ∧ lines (body ++ back) = (body ++ line) :: rest := by
  induction body with
  | nil =>
    obtain ⟨line, rest, hlines⟩ := List.exists_cons_of_ne_nil (lines_ne_nil back)
    exact ⟨line, rest, hlines, hlines⟩
  | cons c body ih =>
    have hc : c ≠ '\n' := fun hc => h (hc ▸ List.mem_cons_self)
    obtain ⟨line, rest, hback, hlines⟩ := ih fun hmem => h (List.mem_cons_of_mem c hmem)
    refine ⟨line, rest, hback, ?_⟩
    rw [List.cons_append, lines, if_neg hc, hlines]
    rfl

/-- Only the last line can be empty. -/
theorem ne_nil_of_lines {line next : List Char} {rest : List (List Char)}
    (h : lines back = line :: next :: rest) : line ≠ [] := by
  cases back with
  | nil => cases h
  | cons c back =>
    rw [lines] at h
    split at h
    · rw [← (List.cons.inj h).1]
      exact List.cons_ne_nil _ _
    · split at h
      · cases h
      · rw [← (List.cons.inj h).1]
        exact List.cons_ne_nil _ _

/-- A text and its first line begin alike. -/
theorem head?_of_lines {line : List Char} {rest : List (List Char)}
    (h : lines back = line :: rest) : line.head? = back.head? := by
  have hflat := flatten_lines back
  rw [h, List.flatten_cons] at hflat
  cases line with
  | cons c line => rw [← hflat, List.cons_append, List.head?_cons, List.head?_cons]
  | nil =>
    cases rest with
    | nil => rw [← hflat, List.flatten_nil, List.append_nil]
    | cons next rest => exact absurd rfl (ne_nil_of_lines h)

/-- The place behind a text without a line feed lies on the first line. -/
theorem locate_append (number : Nat) (back : List Char) (h : '\n' ∉ body) :
    ∃ line, line.head? = back.head? ∧ locate number (Utf8.size body) (lines (body ++ back)) =
      some ⟨number, body ++ line, Utf8.size body⟩ := by
  obtain ⟨line, rest, hback, hlines⟩ := lines_append back h
  refine ⟨line, head?_of_lines hback, ?_⟩
  rw [hlines]
  cases rest with
  | nil =>
    rw [locate, if_pos]
    rw [Utf8.size_append]
    exact Nat.le_add_right _ _
  | cons next rest =>
    have hpos := List.length_pos_iff.mpr (ne_nil_of_lines hback)
    have hsize := Utf8.length_le_size line
    rw [locate, if_pos]
    rw [Utf8.size_append]
    omega

/-- A place behind a line feed lies on a later line. -/
theorem locate_append_lineFeed (number offset : Nat) (text : List Char) (h : '\n' ∉ body) :
    locate number (Utf8.size body + 1 + offset) (lines (body ++ '\n' :: text)) =
      locate (number + 1) offset (lines text) := by
  obtain ⟨line, rest, hlines⟩ := List.exists_cons_of_ne_nil (lines_ne_nil text)
  have hsize : Utf8.size (body ++ ['\n']) = Utf8.size body + 1 := by
    rw [Utf8.size_append]
    rfl
  rw [lines_append_lineFeed text h, hlines, locate, hsize, if_neg (by omega),
    Nat.add_sub_cancel_left]

/-- The line on which the place between two parts of a text lies. The recursion goes over the lines
of the first part. -/
theorem locate_lines (number : Nat) (front back : List Char) :
    ∃ line, line.head? = back.head? ∧ locate number (Utf8.size front) (lines (front ++ back)) =
      some ⟨number + front.count '\n', lastLine front ++ line, Utf8.size (lastLine front)⟩ := by
  obtain ⟨body, rest, hfront, -, hbody, hrest⟩ := Trivia.exists_line front
  rcases hrest with rfl | ⟨more, rfl⟩
  · rw [List.append_nil] at hfront
    subst hfront
    rw [lastLine_of_not_mem hbody, List.count_eq_zero_of_not_mem hbody]
    exact locate_append number back hbody
  · obtain ⟨line, hhead, hline⟩ := locate_lines (number + 1) more back
    refine ⟨line, hhead, ?_⟩
    have hsize : Utf8.size front = Utf8.size body + 1 + Utf8.size more := by
      rw [hfront, Utf8.size_append, Utf8.size_cons]
      exact (Nat.add_assoc ..).symm
    have hcount : front.count '\n' = 1 + more.count '\n' := by
      rw [hfront, List.count_append, List.count_eq_zero_of_not_mem hbody, List.count_cons_self]
      omega
    rw [hsize, hcount, hfront, lastLine_append_lineFeed, List.append_assoc, List.cons_append,
      locate_append_lineFeed number _ _ hbody, hline, Nat.add_assoc]
termination_by front.length
decreasing_by
  rw [hfront, List.length_append, List.length_cons]
  omega

end Lines

/-- The line on which the place between two parts of a source lies, and goes on behind it. -/
theorem lineAt?_append (front back : List Char) :
    ∃ line, line.head? = back.head? ∧ lineAt? (String.ofList (front ++ back)) (Utf8.size front) =
      some ⟨1 + front.count '\n', lastLine front ++ line, Utf8.size (lastLine front)⟩ := by
  rw [lineAt?, String.toList_ofList]
  exact locate_lines 1 front back

/-- The line and the column of an error between two parts of a source. -/
theorem Error.lineColumn?_append {e : Error} {front : List Char}
    (h : e.position.byte = Utf8.size front) (back : List Char) :
    e.lineColumn? (String.ofList (front ++ back)) =
      some (1 + front.count '\n', 1 + (lastLine front).length) := by
  obtain ⟨line, -, hline⟩ := lineAt?_append front back
  rw [Position.byte] at h
  rw [lineColumn?, h, hline, Option.map_some]
  dsimp only
  rw [Utf8.split_append, Nat.add_comm 1 (lastLine front).length]

end SurfaceGrammar

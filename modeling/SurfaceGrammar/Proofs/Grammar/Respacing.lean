import SurfaceGrammar.Proofs.Grammar.Printing
import SurfaceGrammar.Proofs.Grammar.Soundness
import SurfaceGrammar.Proofs.Token.Gaps

/-!
# White space between grouping delimiters

Between the delimiters of a call, a list, a grouping or a literal, white space may be replaced by
other white space, with or without line breaks. Two gaps are an exception, in which a line break
counts even there: the one between a point and a name, which is a member only on the same line, and
the one between a value and a minus with a digit, where the minus is a sign on a new line.

* `Gap.IsGrouped`: a gap stands between such delimiters.
* `Gap.BreakCounts`: a line break in a gap counts wherever the gap stands.
* `Gap.exists_parse_respaced`: the source with other white space is parsed to a module that looks
  the same.
* `Gap.not_forall_parse_respaced`: line breaks between grouping delimiters are not always
  insignificant.
-/

namespace SurfaceGrammar

namespace Change

variable {x y : Change} {d e : List Change}

theorem Points.cons (hd : ∀ z ∈ d.head?, y.old.kind = .dot →
    Parse.isField z.new = Parse.isField z.old) (h : Points d) : Points (y :: d) := by
  intro pre a b post he hdot
  cases pre with
  | nil =>
    cases he
    exact hd b rfl hdot
  | cons c pre =>
    cases he
    exact h pre a b post rfl hdot

theorem points_of_same (hd : ∀ z ∈ d, z.new.newlineBefore = z.old.newlineBefore) : Points d :=
  fun pre a b post he _ => isField (hd b (by simp [he]))

/-- Of the tokens that are replaced, only one may differ in whether a line break stands before it,
as long as it is a field in both places or does not stand after a point. -/
theorem points_append_cons (hd : ∀ z ∈ d, z.new.newlineBefore = z.old.newlineBefore)
    (hx : ∀ y ∈ d.getLast?, y.old.kind = .dot → Parse.isField x.new = Parse.isField x.old)
    (he : ∀ z ∈ e, z.new.newlineBefore = z.old.newlineBefore) : Points (d ++ x :: e) := by
  induction d with
  | nil =>
    refine .cons (fun z hz _ => isField (he z ?_)) (points_of_same he)
    exact List.mem_of_mem_head? hz
  | cons y d ih =>
    have htail : Points (d ++ x :: e) := by
      refine ih (fun z hz => hd z (List.mem_cons_of_mem y hz)) fun z hz => hx z ?_
      rw [List.getLast?_cons, hz]
      rfl
    refine .cons (fun z hz hdot => ?_) htail
    cases d with
    | nil =>
      cases hz
      exact hx y rfl hdot
    | cons b d =>
      cases hz
      exact isField (hd z (by simp))

end Change

namespace Gap

/-- The gap after the first tokens of a source stands between delimiters inside which line breaks
mean nothing, where the source is read as a module, and the token `next` stands behind the gap. -/
def IsGrouped (source : String) (settings : Settings) (index : Nat) (next : Token) : Prop :=
  ∃ w stop body, TokenStream.ofSource source settings.file = ⟨words w, .ok stop⟩ ∧
    Derives settings.elseRequired (.statements .eof) .outside w body [] ∧
    w[index]? = some ⟨next, true⟩

/-- A line break in the gap counts wherever the gap stands: the gap separates a point from a name
that can be a member, or a value from a minus and a digit. -/
def BreakCounts (last next : Token) (back : List Char) : Prop :=
  (last.kind = .dot ∧ next.kind = .identifier ∧ next.isKeyword .then = false ∧
      next.isKeyword .else = false) ∨
    (last.endsValue = true ∧ BeginsSigned back)

variable {settings : Settings} {front gap gap' back : List Char} {before : List Token}
  {last next : Token} {m : Module}

/-- What stands behind a gap is a field in both sources or in none. -/
theorem isField_eq {next' : Token} (hkind : next'.kind = next.kind)
    (hvalue : next'.value = next.value)
    (h : next'.newlineBefore = next.newlineBefore ∨ ¬(next.kind = .identifier ∧
      next.isKeyword .then = false ∧ next.isKeyword .else = false)) :
    Parse.isField next' = Parse.isField next := by
  have hkeyword : ∀ keyword, next'.isKeyword keyword = next.isKeyword keyword := by
    intro keyword
    rw [Token.isKeyword, Token.isKeyword, Token.keyword?, Token.keyword?, hkind, hvalue]
  obtain hline | hno := h
  · simp only [Parse.isField, hkind, hkeyword, hline]
  · have hfield : ∀ line : Bool, (decide (next.kind = .identifier) && !line &&
        !(next.isKeyword .then || next.isKeyword .else)) = false := by
      intro line
      rw [Bool.eq_false_iff]
      intro hall
      simp only [Bool.and_eq_true, decide_eq_true_eq, Bool.not_eq_true', Bool.or_eq_false_iff]
        at hall
      exact hno ⟨hall.1.1, hall.2⟩
    simp only [Parse.isField, hkind, hkeyword, hfield]

/-- White space between grouping delimiters may be replaced by other white space: the source is
parsed again, and the module looks the same. A line break may come or go unless it counts there. -/
theorem exists_parse_respaced (hgap : Gap settings.file front gap back before last)
    (hgap' : IsBlank gap')
    (hparse : parse (String.ofList (front ++ (gap ++ back))) settings = .ok m)
    (hgrouped : IsGrouped (String.ofList (front ++ (gap ++ back))) settings (before.length + 1)
      next)
    (hline : gap'.contains '\n' = gap.contains '\n' ∨ ¬BreakCounts last next back) :
    ∃ m', parse (String.ofList (front ++ (gap' ++ back))) settings = .ok m' ∧
      m'.render = m.render := by
  obtain ⟨w, stop, body, hstream, hderives, hindex⟩ := hgrouped
  obtain ⟨hlength, hnext⟩ := List.getElem?_eq_some_iff.mp hindex
  obtain ⟨u, v, rfl, hu⟩ : ∃ u v, w = u ++ ⟨next, true⟩ :: v ∧ u.length = before.length + 1 := by
    refine ⟨w.take (before.length + 1), w.drop (before.length + 2), ?_, ?_⟩
    · rw [← hnext, List.getElem_cons_drop, List.take_append_drop]
    · exact List.length_take_of_le (Nat.le_of_lt hlength)
  -- The tokens of the source before the gap and behind it.
  obtain ⟨offset, htokens⟩ := hgap.exists_ofSource_eq
  obtain ⟨stream, -, hown⟩ := htokens gap hgap.blank
  have hsplit : (before ++ [last]) ++ stream.tokens = words u ++ next :: words v := by
    have htokens := (TokenStream.mk.inj (hown.symm.trans hstream)).1
    simpa using htokens
  obtain ⟨hbefore, -⟩ := List.append_inj hsplit (by simp [hu])
  have hsource : TokenStream.ofSource (String.ofList (front ++ (gap ++ back))) settings.file =
      ⟨before ++ last :: next :: words v, .ok stop⟩ := by
    rw [hstream]
    simp [← hbefore]
  -- The tokens of the other source take their places.
  obtain ⟨next', after', stop', hother, hkind, hvalue, hbreak, hbreak', hafter⟩ :=
    hgap.exists_ofSource hgap' (hline.imp_right fun hno hsign => hno (.inr hsign)) hsource
  let x : Change := ⟨next, next', true, hkind, hvalue, nofun⟩
  have hunplaced : (before ++ [last]).map Token.unplaced = (words u).map Token.unplaced := by
    rw [hbefore]
  obtain ⟨d, hd, hdnew, hdline⟩ := Change.exists_of_unplaced hunplaced
  obtain ⟨e, he, henew, heline⟩ := Change.exists_of_unplaced hafter
  have hpoints : Change.Points (d ++ x :: e) := by
    refine Change.points_append_cons hdline (fun y hy hdot => ?_) heline
    refine isField_eq hkind hvalue ?_
    have hlast : y.old = last := by
      have hwords : words u = d.map Change.old := by rw [← hd, Change.words_map_before]
      rw [← hbefore] at hwords
      have hgetLast := congrArg List.getLast? hwords
      rw [List.getLast?_map, Option.mem_def.mp hy, List.getLast?_concat] at hgetLast
      exact (Option.some.inj hgetLast).symm
    rw [hlast] at hdot
    obtain hline | hno := hline
    · exact .inl (by rw [hbreak, hbreak', hline])
    · exact .inr fun hname => hno (.inl ⟨hdot, hname⟩)
  have hfinal : Derives settings.elseRequired (.statements .eof) .outside
      ((d ++ x :: e).map Change.after) body [] :=
    hderives.transfer (by simp [hd, he, x, Change.before]) List.map_nil
      (by rw [List.append_nil]; exact hpoints) .nil fun _ => rfl
  have hwords : TokenStream.ofSource (String.ofList (front ++ (gap' ++ back))) settings.file =
      ⟨words ((d ++ x :: e).map Change.after), .ok stop'⟩ := by
    rw [hother, Change.words_map_after]
    simp [hdnew, henew, x]
  obtain ⟨m', hm', hbare'⟩ := parse_of_derives hwords hfinal
  obtain ⟨m₁, hm₁, hbare⟩ := parse_of_derives hstream hderives
  cases hm₁.symm.trans hparse
  exact ⟨m', hm', Module.render_eq_of_bare_eq (hbare'.trans hbare.symm)⟩

/-! ## A member in parentheses -/

section Member

/-- A token of the source `(a. b )`. -/
def memberToken (kind : TokenKind) (value : String) (start stop : UInt32) : Token :=
  ⟨kind, value, ⟨⟨start, "shell"⟩, ⟨stop, "shell"⟩⟩, false⟩

/-- The tokens of the source `(a. b )`. -/
def memberTokens : List Token :=
  [memberToken .openParen "(" 0 1, memberToken .identifier "a" 1 2, memberToken .dot "." 2 3,
    memberToken .identifier "b" 4 5, memberToken .closeParen ")" 6 7]

/-- The tokens of the source, and the scans for those up to the point and for the name behind it. -/
theorem scans_member : (TokenStream.ofSource "(a. b )" "shell").tokens = memberTokens ∧
    (TokenStream.ofSource "(a. b )" "shell").ending.isOk = true ∧
    Scanner.scan "shell" (Scanner.ofSource "(a. b )") =
      .token (memberToken .openParen "(" 0 1) ⟨"a. b )".toList, 1, false, false⟩ ∧
    Scanner.scan "shell" ⟨"a. b )".toList, 1, false, false⟩ =
      .token (memberToken .identifier "a" 1 2) ⟨". b )".toList, 2, false, true⟩ ∧
    Scanner.scan "shell" ⟨". b )".toList, 2, false, true⟩ =
      .token (memberToken .dot "." 2 3) ⟨" b )".toList, 3, false, true⟩ ∧
    Scanner.scan "shell" ⟨" b )".toList, 3, false, true⟩ =
      .token (memberToken .identifier "b" 4 5) ⟨" )".toList, 5, false, true⟩ := by
  decide +kernel

theorem exists_ofSource_member :
    ∃ stop, TokenStream.ofSource "(a. b )" "shell" = ⟨memberTokens, .ok stop⟩ := by
  obtain ⟨htokens, hending, -⟩ := scans_member
  obtain ⟨stop, hstop⟩ := exists_of_isOk hending
  exact ⟨stop, by rw [← htokens, ← hstop]⟩

/-- The leaves of the source `(a. b )`: all but the first stand inside of the parentheses. -/
def memberLeaves : List Leaf :=
  Surroundings.outside.leaf (memberToken .openParen "(" 0 1) ::
    memberTokens.tail.map Surroundings.inside.leaf

theorem derives_member : Derives false (.statements .eof) .outside memberLeaves
    [.expression (.member (.label "a" ()) "b" ())] [] := by
  have hmember : Derives false (.expr .default) .inside
      (memberTokens.tail.dropLast.map Surroundings.inside.leaf)
      (.member (.label "a" ()) "b" ()) [memberToken .closeParen ")" 6 7] :=
    .expr (u := [_]) (v := [_, _]) (w := []) (.label rfl)
      (.member rfl rfl rfl (.chainEnd rfl)) (.operatorsEnd rfl)
  have hgroup : Derives false (.expr .default) .outside memberLeaves
      (.member (.label "a" ()) "b" ()) [] :=
    .expr (u := [_, _, _, _, _]) (v := []) (w := [])
      (.grouping rfl (.delimited (.lastElement (by decide) (.element hmember) (by decide)) rfl))
      (.chainEnd rfl) (.operatorsEnd rfl)
  exact .statement (u := [_, _, _, _, _]) (v := []) (w := []) (by decide) (by decide)
    (.expression rfl (.plain rfl rfl hgroup))
    (.noSemicolon rfl) (.noStatement rfl nofun)

theorem isGrouped_member {i : Nat} {next : Token} (h : memberTokens.tail[i]? = some next) :
    IsGrouped "(a. b )" {} (i + 1) next := by
  obtain ⟨stop, hstream⟩ := exists_ofSource_member
  refine ⟨memberLeaves, stop, _, hstream, derives_member, ?_⟩
  rw [memberLeaves, List.getElem?_cons_succ, List.getElem?_map, h]
  rfl

theorem reads_point : (Scanner.ofSource "(a. b )").Reads "shell" (memberTokens.take 3)
    ⟨" b )".toList, 3, false, true⟩ := by
  obtain ⟨-, -, hparen, hname, hpoint, -⟩ := scans_member
  exact .step hparen (.step hname (.step hpoint (.refl _)))

theorem reads_name : (Scanner.ofSource "(a. b )").Reads "shell" (memberTokens.take 4)
    ⟨" )".toList, 5, false, true⟩ := by
  obtain ⟨-, -, -, -, -, hname⟩ := scans_member
  exact reads_point.trans (.step hname (.refl _))

/-- The source is parsed, but not with the name on a new line. -/
theorem isOk_parse_member :
    (parse "(a. b )" {}).isOk = true ∧ (parse "(a.\nb )" {}).isOk = false := by
  decide +kernel

end Member

/-- A tabulator and a line break in front of the closing parenthesis of `(a. b )`. -/
theorem exists_parse_respaced_member :
    let gap' := "\t\n".toList
    Gap ({} : Settings).file "(a. b".toList " ".toList ")".toList (memberTokens.take 3)
        (memberToken .identifier "b" 4 5) ∧
      IsBlank gap' ∧
      IsGrouped "(a. b )" {} 4 (memberToken .closeParen ")" 6 7) ∧
      ¬BreakCounts (memberToken .identifier "b" 4 5) (memberToken .closeParen ")" 6 7)
        ")".toList ∧
      ∃ m, parse "(a. b )" {} = .ok m ∧
        ∃ m', parse "(a. b\t\n)" {} = .ok m' ∧ m'.render = m.render := by
  intro gap'
  have hgap : Gap ({} : Settings).file "(a. b".toList " ".toList ")".toList (memberTokens.take 3)
      (memberToken .identifier "b" 4 5) :=
    ⟨⟨by decide, List.all_eq_true.mp (by decide)⟩, ⟨_, reads_name, rfl⟩, by decide⟩
  have hgap' : IsBlank gap' := ⟨by decide, List.all_eq_true.mp (by decide)⟩
  have hcounts : ¬BreakCounts (memberToken .identifier "b" 4 5) (memberToken .closeParen ")" 6 7)
      ")".toList := by
    rintro (⟨hdot, -⟩ | ⟨-, d, rest, hback, -⟩)
    · cases hdot
    · cases hback
  obtain ⟨m, hm⟩ := exists_of_isOk isOk_parse_member.1
  have hold : String.ofList ("(a. b".toList ++ (" ".toList ++ ")".toList)) = "(a. b )" := rfl
  have hnew : String.ofList ("(a. b".toList ++ (gap' ++ ")".toList)) = "(a. b\t\n)" := rfl
  refine ⟨hgap, hgap', isGrouped_member rfl, hcounts, m, hm, ?_⟩
  rw [← hnew]
  exact exists_parse_respaced hgap hgap' (hold ▸ hm) (hold ▸ isGrouped_member rfl) (.inr hcounts)

/-- A line break between grouping delimiters can count: `(a. b )` is parsed, but it is not if the
name stands on a new line. -/
theorem not_forall_parse_respaced : ¬∀ (settings : Settings) (front gap gap' back : List Char)
    (before : List Token) (last next : Token) (m : Module),
    Gap settings.file front gap back before last → IsBlank gap' →
    parse (String.ofList (front ++ (gap ++ back))) settings = .ok m →
    IsGrouped (String.ofList (front ++ (gap ++ back))) settings (before.length + 1) next →
    ∃ m', parse (String.ofList (front ++ (gap' ++ back))) settings = .ok m' ∧
      m'.render = m.render := by
  intro hall
  have hpoint : Gap "shell" "(a.".toList " ".toList "b )".toList (memberTokens.take 2)
      (memberToken .dot "." 2 3) := by
    exact ⟨⟨by decide, List.all_eq_true.mp (by decide)⟩, ⟨_, reads_point, rfl⟩, by decide⟩
  have hbreak : IsBlank "\n".toList := ⟨by decide, List.all_eq_true.mp (by decide)⟩
  obtain ⟨hparse, hrefused⟩ := isOk_parse_member
  obtain ⟨m, hm⟩ := exists_of_isOk hparse
  obtain ⟨m', hm', -⟩ := hall {} _ _ _ _ _ _ _ m hpoint hbreak hm (isGrouped_member rfl)
  have hother : parse "(a.\nb )" {} = .ok m' := hm'
  rw [hother] at hrefused
  cases hrefused

end Gap

end SurfaceGrammar

import SurfaceGrammar.Proofs.Grammar.Parallel
import SurfaceGrammar.Proofs.Token.Woven
import SurfaceGrammar.Proofs.Tree.Bare

/-!
# Independence of white space and comments

A source with other white space and other comments has the same tokens at other places, if line
feeds stand in front of the same tokens. It is parsed to a tree that looks the same, or to the same
error at the same token.

* `Token.Beside`, `Error.Beside`: tokens at the same index of two lists, and errors there.
* `Correspondence.ofTokens`: these belong together if the lists differ in places only.
* `SameOutcome`: modules that look the same, or the same error at the same token.
* `tokenize_refilled`: the tokens of a source with other gaps.
* `parse_refilled`: what comes out for a source with other gaps.
-/

namespace SurfaceGrammar

/-! ## Tokens and errors beside each other -/

/-- Tokens at the same index of two lists. -/
def Token.Beside (ts ts' : List Token) (t t' : Token) : Prop :=
  ∃ i : Nat, ts[i]? = some t ∧ ts'[i]? = some t'

/-- Errors of the same kind at the beginnings of tokens at the same index of two lists. -/
def Error.Beside (ts ts' : List Token) (e e' : Error) : Prop :=
  e'.kind = e.kind ∧ ∃ t t' : Token, Token.Beside ts ts' t t' ∧
    e.position = t.span.start ∧ e'.position = t'.span.start

namespace Token

variable {ts ts' us us' : List Token} {t t' : Token}

theorem Beside.unplaced_eq (h : Beside ts ts' t t')
    (hsame : ts'.map unplaced = ts.map unplaced) : t'.unplaced = t.unplaced := by
  obtain ⟨i, ht, ht'⟩ := h
  have hindex := congrArg (·[i]?) hsame
  simpa only [List.getElem?_map, ht, ht', Option.map_some, Option.some.injEq] using hindex

/-- The tokens at the beginning of two lists, one beside the other. -/
theorem forall₂_beside (hlength : us.length = us'.length) :
    List.Forall₂ (Beside (us ++ ts) (us' ++ ts')) us us' := by
  refine List.forall₂_iff_get.mpr ⟨hlength, fun i hi hi' => ⟨i, ?_, ?_⟩⟩
  · simp [List.getElem?_append_left hi]
  · simp [List.getElem?_append_left hi']

end Token

/-- Tokens at the same index of two lists belong together, if the lists differ in places only. -/
def Correspondence.ofTokens (ts ts' : List Token)
    (hsame : ts'.map Token.unplaced = ts.map Token.unplaced) : Correspondence Unit where
  token := Token.Beside ts ts'
  place _ _ := True
  error := Error.Beside ts ts'
  old _ := ()
  new _ := ()
  sequel := none
  unplaced h := by
    obtain ⟨hkind, hvalue, -, -⟩ := Token.mk.inj (h.unplaced_eq hsame)
    exact ⟨hkind, hvalue⟩
  start _ := trivial
  stop _ := trivial
  located _ h := ⟨rfl, _, _, h, rfl, rfl⟩
  span _ _ := rfl
  join _ _ := rfl
  admits _ hq := by cases hq

/-! ## Sources with the same tokens -/

/-- Two parses come to the same: to modules that look the same, or to the same error at the same
token. -/
inductive SameOutcome (ts ts' : List Token) :
    Except Failure Module → Except Failure Module → Prop
  | module {m m' : Module} (render : m'.render = m.render) : SameOutcome ts ts' (.ok m) (.ok m')
  | error {e e' : Error} (beside : e.Beside ts ts' e') :
      SameOutcome ts ts' (.error (.error e)) (.error (.error e'))

/-- Sources with the same tokens at any places. -/
theorem sameOutcome_of_tokenize {source source' : String} {settings : Settings}
    {ts ts' : List Token} (h : tokenize source settings.file = .ok ts)
    (h' : tokenize source' settings.file = .ok ts')
    (hsame : ts'.map Token.unplaced = ts.map Token.unplaced) :
    SameOutcome ts ts' (parse source settings) (parse source' settings) := by
  obtain ⟨us, stop, hstream, rfl⟩ := tokenize_eq_ok_iff.mp h
  obtain ⟨us', stop', hstream', rfl⟩ := tokenize_eq_ok_iff.mp h'
  have hlength : us.length = us'.length := by
    have hlengths := congrArg List.length hsame
    simp only [List.length_map, List.length_append, List.length_singleton] at hlengths
    omega
  have hstop : Token.Beside (us ++ [stop]) (us' ++ [stop']) stop stop' :=
    ⟨us.length, by simp, by simp [hlength]⟩
  have hstreams : (Correspondence.ofTokens _ _ hsame).Streams
      (TokenStream.ofSource source settings.file) (TokenStream.ofSource source' settings.file) := by
    rw [hstream, hstream']
    refine .same rfl ((Token.forall₂_beside hlength).imp fun t t' ht => ⟨ht, ?_⟩) (.ok hstop)
    exact (Token.mk.inj (ht.unplaced_eq hsame)).2.2.2
  obtain ⟨m, m', hm, hm', hbare⟩ | ⟨e, e', he, he', hbeside⟩ :=
    parse_of_streams rfl trivial hstreams
  · rw [hm, hm']
    exact .module (Module.render_eq_of_bare_eq hbare)
  · rw [he, he']
    exact .error hbeside

/-! ## Other white space and other comments -/

/-- A source with other gaps has the same tokens at other places. -/
theorem tokenize_refilled {source file : String} {ts : List Token} {w : Woven}
    (h : tokenize source file = .ok ts) (hw : (Woven.ofSource source file).Refilled w) :
    ∃ ts', tokenize w.source file = .ok ts' ∧
      ts'.map Token.unplaced = ts.map Token.unplaced := by
  obtain ⟨us, stop, hstream, rfl⟩ := tokenize_eq_ok_iff.mp h
  have hscanner : TokenStream.ofScanner file (Scanner.ofSource source) = ⟨us, .ok stop⟩ := hstream
  have hrest : (Scanner.ofSource w.source).rest = w.chars := String.toList_ofList
  obtain ⟨us', stop', hus', hsame, hstop⟩ :=
    TokenStream.exists_of_refilled (by rw [hscanner]) hw hrest rfl rfl
  rw [hscanner] at hsame
  refine ⟨us' ++ [stop'], tokenize_eq_ok_iff.mpr ⟨us', stop', hus', rfl⟩, ?_⟩
  rw [List.map_append, List.map_append, hsame, List.map_singleton, List.map_singleton, hstop]

/-- White space and comments mean nothing besides the line feeds in them. A source is made of the
texts of its tokens and of gaps between them, before the first and behind the last one. The source
with other gaps has tokens of the same kinds, values and newline flags, and its parse comes to the
same. -/
theorem parse_refilled {source : String} {settings : Settings} {ts : List Token} {w : Woven}
    (h : tokenize source settings.file = .ok ts)
    (hw : (Woven.ofSource source settings.file).Refilled w) :
    (Woven.ofSource source settings.file).source = source ∧
      ∃ ts', tokenize w.source settings.file = .ok ts' ∧
        ts'.map Token.unplaced = ts.map Token.unplaced ∧
        SameOutcome ts ts' (parse source settings) (parse w.source settings) := by
  obtain ⟨ts', hts', hsame⟩ := tokenize_refilled h hw
  exact ⟨Woven.source_ofSource source settings.file, ts', hts', hsame,
    sameOutcome_of_tokenize h hts' hsame⟩

/-- Comments with marks in them, in front of a minus behind a value and in front of a sign. -/
theorem parse_refilled_difference :
    let source := "x-1//\n-2"
    let settings : Settings := {}
    let w : Woven := ⟨[⟨" ".toList, "x".toList⟩, ⟨" /* - */".toList, "-".toList⟩,
      ⟨"\t".toList, "1".toList⟩, ⟨" // 3\n/**/".toList, "-2".toList⟩], " ".toList⟩
    (Woven.ofSource source settings.file).Refilled w ∧
      w.source = " x /* - */-\t1 // 3\n/**/-2 " ∧
      ∃ ts, tokenize source settings.file = .ok ts ∧
        (Woven.ofSource source settings.file).source = source ∧
        ∃ ts', tokenize w.source settings.file = .ok ts' ∧
          ts'.map Token.unplaced = ts.map Token.unplaced ∧
          SameOutcome ts ts' (parse source settings) (parse w.source settings) := by
  intro source settings w
  have hcut : Woven.ofSource source settings.file = ⟨[⟨[], "x".toList⟩, ⟨[], "-".toList⟩,
      ⟨[], "1".toList⟩, ⟨"//\n".toList, "-2".toList⟩], []⟩ := by
    decide +kernel
  have hw : (Woven.ofSource source settings.file).Refilled w := by
    rw [hcut]
    refine ⟨.cons ⟨rfl, ?_⟩ (.cons ⟨rfl, ?_⟩ (.cons ⟨rfl, ?_⟩ (.cons ⟨rfl, ?_⟩ .nil))), ?_⟩
    · exact ⟨⟨' ', _, rfl, by decide⟩, .of_blank (List.all_eq_true.mp (by decide)), by decide⟩
    · have hinner : ¬['*', '/'] <:+: " - ".toList := by decide
      exact ⟨⟨' ', _, rfl, by decide⟩, .blank (by decide) (.block hinner .nil), by decide⟩
    · exact ⟨⟨'\t', _, rfl, by decide⟩, .of_blank (List.all_eq_true.mp (by decide)), by decide⟩
    · have hline : '\n' ∉ " 3".toList := by decide
      have hinner : ¬['*', '/'] <:+: ([] : List Char) := by decide
      exact ⟨⟨' ', _, rfl, by decide⟩,
        .blank (by decide) (.line hline (.block hinner .nil)), by decide⟩
    · exact ⟨⟨' ', _, rfl, by decide⟩, .of_blank (List.all_eq_true.mp (by decide)), by decide⟩
  obtain ⟨ts, hts⟩ : ∃ ts, tokenize source settings.file = .ok ts :=
    exists_of_isOk (by decide +kernel)
  exact ⟨hw, rfl, ts, hts, parse_refilled hts hw⟩

end SurfaceGrammar

import SurfaceGrammar.Proofs.Grammar.Soundness
import SurfaceGrammar.Proofs.Tree.Decoding

/-!
# The rendering of a parsed source is decoded

The names of a parsed tree are names of the source and its numbers are finite, so the tree is
legible. Its rendering has a line for each statement, from which the statement is decoded.

* `Phrase.Legible`: what a phrase stands for can be read back.
* `Derives.legible`: it can, if the identifiers among the tokens are names.
* `Module.legible_of_parse`: a parsed tree is legible.
* `Module.decode?_render_of_parse`: the statements that are decoded from the rendering of a parsed
  source.
-/

namespace SurfaceGrammar

/-! ## Names -/

/-- An identifier is a name. -/
def Token.Named (t : Token) : Prop :=
  t.kind = .identifier → Lexeme.IsName t.value

theorem Lexeme.isName_of_recognise {afterValue : Bool} {c : Char} {text : List Char} {l : Lexeme}
    (h : Lexeme.recognise afterValue c text = .ok l) (hkind : l.kind = .identifier) :
    Lexeme.IsName l.value := by
  cases Lexeme.recognise_eq_ok_iff.mp h with
  | name starts =>
    exact ⟨c, _, String.toList_ofList, starts, List.all_eq_true.mp List.all_takeWhile⟩
  | string literal | char literal =>
    obtain ⟨body, value, -, -, -, rfl⟩ := Lexeme.quoted_eq_ok_iff.mp literal
    cases hkind
  | minus | negative | number => cases hkind
  | symbol _ _ _ _ _ mark =>
    obtain ⟨spelling, kind, before, after, -, hsymbols, -, rfl⟩ := Lexeme.symbol_eq_ok_iff.mp mark
    have hall : ∀ entry ∈ symbols, entry.2 ≠ .identifier := by decide
    exact absurd hkind (hall (spelling, kind) (by simp [hsymbols]))

theorem Scanner.Reads.named {file : String} {scanner last : Scanner} {ts : List Token}
    (h : scanner.Reads file ts last) : ∀ t ∈ ts, t.Named := by
  induction h with
  | refl => simp
  | step head _ ih =>
    intro u hu
    obtain rfl | hu := List.mem_cons.mp hu
    · obtain ⟨c, text, l, -, hl, hemit⟩ := Scanner.scan_eq_token_iff.mp head
      cases hemit
      exact Lexeme.isName_of_recognise hl
    · exact ih u hu

theorem TokenStream.named_ofSource (source file : String) :
    ∀ t ∈ (TokenStream.ofSource source file).tokens, t.Named := by
  obtain ⟨last, hreads, -⟩ := TokenStream.reads_ofScanner file (Scanner.ofSource source)
  exact hreads.named

/-- A plain label is a name and no truth value. -/
theorem isLabel_of_plainLabel {c : Surroundings} {t : Token} {r : List Token} (ht : t.Named)
    (h : Lookahead.plainLabel c t r = true) : IsLabel t.value := by
  simp only [Lookahead.plainLabel, Bool.and_eq_true, decide_eq_true_eq] at h
  obtain ⟨hkind, hword⟩ := h
  refine ⟨ht hkind, fun value hvalue => ?_⟩
  have hkeyword : t.keyword? = some (.ofBool value) := by rw [Token.keyword?, if_pos hkind, hvalue]
  rw [hkeyword] at hword
  cases value <;> cases hword

/-! ## Lists -/

theorem Expr.legibleEach_iff {es : List (Expr Unit)} :
    Expr.LegibleEach es ↔ ∀ e ∈ es, e.Legible := by
  induction es with
  | nil => simp [Expr.LegibleEach]
  | cons e es ih => simp [Expr.LegibleEach, ih]

theorem Entry.legibleEach_iff {es : List (Entry Unit)} :
    Entry.LegibleEach es ↔ ∀ e ∈ es, e.key.Legible ∧ e.value.Legible := by
  induction es with
  | nil => simp [Entry.LegibleEach]
  | cons e es ih =>
    obtain ⟨key, value, mark⟩ := e
    simp [Entry.LegibleEach, ih, and_assoc]

theorem Field.legibleEach_iff {fs : List (Field Unit)} :
    Field.LegibleEach fs ↔ ∀ f ∈ fs, Lexeme.IsName f.label ∧ f.value.Legible := by
  induction fs with
  | nil => simp [Field.LegibleEach]
  | cons f fs ih =>
    obtain ⟨label, value, mark⟩ := f
    simp [Field.LegibleEach, ih, and_assoc]

theorem Parameter.legibleEach_iff {ps : List (Parameter Unit)} :
    Parameter.LegibleEach ps ↔ ∀ p ∈ ps, Lexeme.IsName p.label ∧ Expr.LegibleOption p.type := by
  induction ps with
  | nil => simp [Parameter.LegibleEach]
  | cons p ps ih =>
    obtain ⟨label, type, mark⟩ := p
    simp [Parameter.LegibleEach, ih, and_assoc]

/-! ## Phrases -/

/-- What stands between commas can be read back. -/
def Slot.Legible : (slot : Slot) → slot.Tree Unit → Prop
  | .expr => Expr.Legible
  | .entry => fun e => e.key.Legible ∧ e.value.Legible
  | .field => fun f => Lexeme.IsName f.label ∧ f.value.Legible
  | .parameter => fun p => Lexeme.IsName p.label ∧ Expr.LegibleOption p.type

/-- What a phrase stands for can be read back. For what follows an expression this is so if the
expression can be read back. -/
def Phrase.Legible : (p : Phrase) → p.Tree Unit → Prop
  | .primary | .conditional _ | .declaration | .update | .expr _ | .statementExpr _ =>
    Expr.Legible
  | .chain base => fun e => base.Legible → e.Legible
  | .operators _ left => fun e => left.Legible → e.Legible
  | .elseBranch _ | .declaredType | .typeAfterColon => Expr.LegibleOption
  | .functionBody => Body.Legible
  | .element slot => slot.Legible
  | .elements slot _ _ | .delimited slot _ => fun xs => ∀ x ∈ xs.1, slot.Legible x
  | .content => Stmt.Legible
  | .statements _ | .blockBody => Stmt.LegibleEach
  | .thenWord | .terminator _ => fun _ => True

section Words

variable {P : Token → Prop} {l : Leaf} {u v : List Leaf}

theorem of_cons (h : ∀ t ∈ words (l :: u), P t) : P l.token ∧ ∀ t ∈ words u, P t := by
  simpa using h

theorem of_append (h : ∀ t ∈ words (u ++ v), P t) :
    (∀ t ∈ words u, P t) ∧ ∀ t ∈ words v, P t := by
  rwa [words_append, List.forall_mem_append] at h

end Words

/-- What a phrase stands for can be read back if its identifiers are names. The induction is on the
derivation. -/
theorem Derives.legible {elseRequired : Bool} {p : Phrase} {c : Surroundings} {w : List Leaf}
    {v : p.Tree Unit} {r : List Token} (h : Derives elseRequired p c w v r) :
    (∀ t ∈ words w, t.Named) → p.Legible v := by
  induction h with
  | number _ value =>
    intro _
    exact (Option.filter_eq_some_iff.mp value).2
  | string | char | boolean => exact fun _ => trivial
  | label plain => exact fun hw => isLabel_of_plainLabel (hw _ (by simp)) plain
  | grouping _ _ ih =>
    intro hw
    exact ih (of_cons hw).2 _ (by simp)
  | tuple _ _ _ ih => exact fun hw => Expr.legibleEach_iff.mpr (ih (of_cons hw).2)
  | array _ _ ih => exact fun hw => Expr.legibleEach_iff.mpr (ih (of_cons hw).2)
  | set _ _ _ _ ih => exact fun hw => Expr.legibleEach_iff.mpr (ih (of_cons (of_cons hw).2).2)
  | mapping _ _ _ _ ih => exact fun hw => Entry.legibleEach_iff.mpr (ih (of_cons (of_cons hw).2).2)
  | object _ _ ih => exact fun hw => Field.legibleEach_iff.mpr (ih (of_cons hw).2)
  | @function _ _ _ name _ _ _ _ _ _ _ _ _ named _ _ _ _ ihp iht ihb =>
    intro hw
    obtain ⟨hname, hrest⟩ := of_append (of_cons hw).2
    obtain ⟨hps, hrest⟩ := of_append (of_cons hrest).2
    obtain ⟨htype, hbody⟩ := of_append hrest
    refine ⟨fun n hn => ?_, Parameter.legibleEach_iff.mpr (ihp hps), iht htype, ihb hbody⟩
    obtain ⟨t, ht, rfl⟩ := Option.map_eq_some_iff.mp hn
    exact hname t (by simp [Option.mem_def.mp ht, words]) (named t ht)
  | arrowBody _ _ ih => exact fun hw => ih (of_cons hw).2
  | statementBody _ ih => exact ih
  | block _ _ _ _ ih => exact fun hw => ih (of_cons hw).2
  | blockBody _ _ _ ih => exact fun hw => ih (of_append (of_cons hw).2).1
  | conditionalValue _ ih => exact ih
  | conditional _ _ _ _ _ ihc _ iht ihe =>
    intro hw
    obtain ⟨hcondition, hrest⟩ := of_append (of_cons hw).2
    obtain ⟨hthen, helse⟩ := of_append (of_append hrest).2
    exact ⟨ihc hcondition, iht hthen, ihe helse⟩
  | thenPresent | thenAbsent => exact fun _ => trivial
  | elsePresent _ _ ih => exact fun hw => ih (of_cons hw).2
  | elseAbsent => exact fun _ => trivial
  | typePresent _ _ ih => exact fun hw => ih (of_cons hw).2
  | typeAbsent => exact fun _ => trivial
  | declaredTypePresent _ ih => exact ih
  | declaredTypeAbsent => exact fun _ => trivial
  | declaration named _ _ _ _ iht ihv =>
    intro hw
    obtain ⟨htype, hvalue⟩ := of_append (of_cons (of_cons hw).2).2
    exact ⟨(of_cons hw).1 named, iht htype, ihv (of_cons hvalue).2⟩
  | update named _ _ ih =>
    exact fun hw => ⟨(of_cons hw).1 named, ih (of_cons (of_cons hw).2).2⟩
  | chainEnd => exact fun _ hbase => hbase
  | call _ _ _ _ iha ihm =>
    intro hw hbase
    obtain ⟨harguments, hmore⟩ := of_append (of_cons hw).2
    exact ihm hmore ⟨hbase, Expr.legibleEach_iff.mpr (iha harguments)⟩
  | member _ _ field _ ih =>
    intro hw hbase
    obtain ⟨hname, hmore⟩ := of_cons (of_cons hw).2
    exact ih hmore ⟨hbase, hname (Parse.kind_of_isField field)⟩
  | suffix _ _ _ _ ih => exact fun hw hbase => ih (of_cons hw).2 hbase
  | operatorsEnd => exact fun _ hleft => hleft
  | binary _ _ _ _ _ iho ihm =>
    intro hw hleft
    obtain ⟨hoperand, hmore⟩ := of_append (of_cons hw).2
    exact ihm hmore ⟨hleft, iho hoperand⟩
  | expr _ _ _ ihh ihc iho =>
    intro hw
    obtain ⟨hhead, hrest⟩ := of_append hw
    obtain ⟨hchain, hoperators⟩ := of_append hrest
    exact iho hoperators (ihc hchain (ihh hhead))
  | declared _ ih | updated _ ih => exact ih
  | chosen _ _ ih | plain _ _ _ ih => exact ih
  | element _ ih => exact ih
  | entry _ _ _ ihk ihv =>
    intro hw
    obtain ⟨hkey, hvalue⟩ := of_append hw
    exact ⟨ihk hkey, ihv (of_cons hvalue).2⟩
  | field named _ _ ih =>
    exact fun hw => ⟨(of_cons hw).1 named, ih (of_cons (of_cons hw).2).2⟩
  | parameter named _ ih => exact fun hw => ⟨(of_cons hw).1 named, ih (of_cons hw).2⟩
  | noElement => exact fun _ x hx => absurd hx List.not_mem_nil
  | lastElement _ _ _ ih =>
    intro hw x hx
    obtain rfl := List.mem_singleton.mp hx
    exact ih hw
  | moreElements _ _ _ _ ihx ihm =>
    intro hw x hx
    obtain ⟨hfirst, hrest⟩ := of_append hw
    obtain rfl | hx := List.mem_cons.mp hx
    · exact ihx hfirst
    · exact ihm (of_cons hrest).2 x hx
  | delimited _ _ ih => exact fun hw => ih (of_append hw).1
  | typeDefinition _ named _ _ _ ih =>
    intro hw
    obtain ⟨hname, hrest⟩ := of_cons (of_cons hw).2
    exact ⟨hname named, ih (of_cons hrest).2⟩
  | expression _ _ ih => exact ih
  | semicolon | noSemicolon => exact fun _ => trivial
  | emptyStatement _ _ ih => exact fun hw => ih (of_cons hw).2
  | noStatement => exact fun _ => trivial
  | statement _ _ _ _ _ ihc _ ihr =>
    intro hw
    obtain ⟨hcontent, hrest⟩ := of_append hw
    exact ⟨ihc hcontent, ihr (of_append hrest).2⟩

/-! ## Parsed sources -/

/-- A parsed tree is legible. -/
theorem Module.legible_of_parse {source : String} {settings : Settings} {m : Module}
    (h : parse source settings = .ok m) : Stmt.LegibleEach m.bare := by
  obtain ⟨w, stop, hstream, hderives⟩ := derives_of_parse h
  refine hderives.legible fun t ht => ?_
  have hnamed := TokenStream.named_ofSource source settings.file
  rw [hstream] at hnamed
  exact hnamed t ht

theorem Module.render_eq (m : Module) :
    m.render = String.intercalate "\n" (m.bare.map Stmt.render) := by
  simp [Module.render, Module.bare, Stmt.render_bare, Function.comp_def]

/-- The statements of a parsed source are decoded from its rendering, with the label `_` for what
is left out. The lines of the rendering are the statements, one each. -/
theorem Module.decode?_render_of_parse {source : String} {settings : Settings} {m : Module}
    (h : parse source settings = .ok m) :
    Stmt.decode? m.render = some (m.bare.map (Stmt.rewrite .filled)) ∧
      (m.body ≠ [] → m.render.toList.splitOn '\n' = m.body.map fun s => s.render.toList) ∧
      ∀ s ∈ m.body, Stmt.decode? s.render = some [s.bare.rewrite .filled] := by
  have hlegible := Module.legible_of_parse h
  refine ⟨?_, fun hne => ?_, fun s hs => ?_⟩
  · rw [Module.render_eq]
    exact Stmt.decode?_render hlegible
  · have hbare : m.bare ≠ [] := by simpa [Module.bare] using hne
    rw [Module.render_eq, Stmt.splitOn_render hlegible hbare]
    simp [Module.bare, Stmt.render_bare, Function.comp_def]
  · have hs' : Stmt.LegibleEach [s.bare] :=
      ⟨hlegible.of_mem (List.mem_map_of_mem hs), trivial⟩
    have hline := Stmt.decode?_render hs'
    rwa [List.map_singleton, String.intercalate_singleton, Stmt.render_bare,
      List.map_singleton] at hline

/-- Two statements: a call with quotes, parentheses and a line break in its literals, and a function
without a name and a return type. -/
theorem Module.decode?_render_of_parse_quoted :
    ∃ m, parse "f(\") (\\n\", '\"')\nfn (x) -> -0" {} = .ok m ∧
      Stmt.decode? m.render = some (m.bare.map (Stmt.rewrite .filled)) ∧
      (m.body ≠ [] → m.render.toList.splitOn '\n' = m.body.map fun s => s.render.toList) ∧
      ∀ s ∈ m.body, Stmt.decode? s.render = some [s.bare.rewrite .filled] := by
  obtain ⟨m, hm⟩ : ∃ m, parse "f(\") (\\n\", '\"')\nfn (x) -> -0" {} = .ok m :=
    exists_of_isOk (by decide +kernel)
  exact ⟨m, hm, Module.decode?_render_of_parse hm⟩

end SurfaceGrammar

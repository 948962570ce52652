import SurfaceGrammar.Proofs.Grammar.Precedence
import SurfaceGrammar.Proofs.Token.Spaced

/-!
# Forms around a source

A source is put into a block, and the block into other forms: into blocks and functions, each as
their only statement, and into arrays, tuples and calls as an element. The tokens of the whole text
are those before the source, those of the source at a later place, and those behind it.

* `BlockForm`, `GroupForm`: the forms, with statements or with an element in the innermost place.
* `Context`: forms around each other, of which the innermost is one with statements.
* `Context.around`: the text with a source in the innermost place.
* `Context.inside?`: the statements in the innermost place of an expression.
* `Context.exists_ofSource_around`: the tokens of a source in a context.
-/

namespace SurfaceGrammar

/-! ## Forms -/

/-- White space. -/
structure Blank where
  text : List Char
  blank : ∀ c ∈ text, isWhitespace c = true

/-- White space with a line feed in it. -/
structure LineBreak extends Blank where
  lineFeed : '\n' ∈ text

/-- A form with statements between curly brackets. -/
inductive BlockForm where
  | block (kind : BlockKind)
  /-- A function without a name and without parameters. -/
  | function

/-- A form with an element between parentheses or square brackets. -/
inductive GroupForm where
  | array
  /-- A tuple with a label as its first element. -/
  | tuple (label : Identifier)
  | call (callee : Identifier)

/-- The words and the marks before the statements, with white space before the first of them. -/
def BlockForm.opening (gap : List Char) : BlockForm → List Spaced
  | block kind => [⟨gap, .name kind.keyword.spelling⟩, ⟨[' '], .mark .openCurly⟩]
  | function => [⟨gap, .name Keyword.fn.spelling⟩, ⟨[' '], .mark .openParen⟩,
      ⟨[], .mark .closeParen⟩, ⟨[' '], .mark .openCurly⟩]

/-- The words and the marks before the element, with white space before the first of them. -/
def GroupForm.opening (gap : List Char) : GroupForm → List Spaced
  | array => [⟨gap, .mark .openBracket⟩]
  | tuple label => [⟨gap, .mark .openParen⟩, ⟨[], .name label.text⟩, ⟨[], .mark .comma⟩]
  | call callee => [⟨gap, .name callee.text⟩, ⟨[], .mark .openParen⟩]

/-- The mark behind the element. -/
def GroupForm.closing : GroupForm → TokenKind
  | array => .closeBracket
  | tuple _ | call _ => .closeParen

/-- The statements of an expression of the form. -/
def BlockForm.body? {α : Type} : BlockForm → Expr α → Option (List (Stmt α))
  | block kind, .block kind' body _ => if kind' = kind then some body else none
  | function, .function none [] none (.block body) _ => some body
  | _, _ => none

/-- The element of an expression of the form. -/
def GroupForm.element? {α : Type} : GroupForm → Expr α → Option (Expr α)
  | array, .sequence .array [e] _ => some e
  | tuple label, .sequence .tuple [.label name _, e] _ => if name = label.text then some e else none
  | call callee, .call (.label name _) [e] _ => if name = callee.text then some e else none
  | _, _ => none

/-- The expression that is the only statement. -/
def Stmt.only? {α : Type} : List (Stmt α) → Option (Expr α)
  | [.expression e] => some e
  | _ => none

theorem Stmt.eq_of_only? {α : Type} {body : List (Stmt α)} {e : Expr α}
    (h : Stmt.only? body = some e) : body = [.expression e] := by
  unfold Stmt.only? at h
  split at h
  · cases h
    rfl
  · cases h

/-! ## Contexts -/

/-- Forms around each other, each behind white space. Statements stand in the innermost one. Every
closing curly bracket stands on a new line. -/
inductive Context where
  /-- A form around statements, with white space before them. -/
  | innermost (gap : Blank) (form : BlockForm) (front : Blank) (line : LineBreak)
  /-- A form around a context as its only statement. -/
  | block (gap : Blank) (form : BlockForm) (inside : Context) (line : LineBreak)
  /-- A form around a context as its element. -/
  | group (gap : Blank) (form : GroupForm) (inside : Context) (back : Blank)

namespace Context

/-- The words and the marks before the statements in the innermost place. -/
def opening : Context → List Spaced
  | innermost gap form _ _ => form.opening gap.text
  | block gap form inside _ => form.opening gap.text ++ inside.opening
  | group gap form inside _ => form.opening gap.text ++ inside.opening

/-- The white space between them and the statements. -/
def front : Context → Blank
  | innermost _ _ front _ => front
  | block _ _ inside _ | group _ _ inside _ => inside.front

/-- The marks behind the statements. -/
def closing : Context → List Spaced
  | innermost _ _ _ line => [⟨line.text, .mark .closeCurly⟩]
  | block _ _ inside line => inside.closing ++ [⟨line.text, .mark .closeCurly⟩]
  | group _ form inside back => inside.closing ++ [⟨back.text, .mark form.closing⟩]

/-- What stands before the innermost place. -/
def before (context : Context) : String :=
  String.ofList (Spaced.chars context.opening ++ context.front.text)

/-- What stands behind the innermost place. -/
def behind (context : Context) : String := String.ofList (Spaced.chars context.closing)

/-- The text with a source in the innermost place. -/
def around (context : Context) (source : String) : String :=
  context.before ++ source ++ context.behind

/-- The statements in the innermost place of an expression. -/
def inside? {α : Type} : Context → Expr α → Option (List (Stmt α))
  | innermost _ form _ _, e => form.body? e
  | block _ form inside _, e => (form.body? e).bind fun body =>
      (Stmt.only? body).bind inside.inside?
  | group _ form inside _, e => (form.element? e).bind inside.inside?

end Context

/-! ## The tokens around a source -/

open Spaced Lexeme

theorem BlockForm.written_opening (form : BlockForm) (gap : Blank) (back : List Char) :
    Written back (form.opening gap.text) := by
  cases form with
  | block kind =>
    refine .cons gap.blank (fun afterValue => ?_) ?_
    · exact stands_name afterValue (isName_spelling _) rfl
    · exact .cons blank_space (fun afterValue => stands_closed afterValue _ rfl) .nil
  | function =>
    refine .cons gap.blank (fun afterValue => ?_) ?_
    · exact stands_name afterValue (isName_spelling .fn) rfl
    · refine .cons blank_space (fun afterValue => stands_closed afterValue _ rfl) ?_
      refine .cons nofun (fun afterValue => stands_closed afterValue _ rfl) ?_
      exact .cons blank_space (fun afterValue => stands_closed afterValue _ rfl) .nil

theorem GroupForm.written_opening (form : GroupForm) (gap : Blank) (back : List Char) :
    Written back (form.opening gap.text) := by
  cases form with
  | array => exact .cons gap.blank (fun afterValue => stands_closed afterValue _ rfl) .nil
  | tuple label =>
    refine .cons gap.blank (fun afterValue => stands_closed afterValue _ rfl) ?_
    refine .cons nofun (fun afterValue => ?_) ?_
    · exact stands_name afterValue label.valid.name rfl
    · exact .cons nofun (fun afterValue => stands_closed afterValue _ rfl) .nil
  | call callee =>
    refine .cons gap.blank (fun afterValue => ?_) ?_
    · exact stands_name afterValue callee.valid.name rfl
    · exact .cons nofun (fun afterValue => stands_closed afterValue _ rfl) .nil

theorem GroupForm.isClosed_closing (form : GroupForm) : isClosed form.closing = true := by
  cases form <;> rfl

namespace Context

theorem written_opening (context : Context) (back : List Char) : Written back context.opening := by
  induction context with
  | innermost gap form front line => exact form.written_opening gap back
  | block gap form inside line ih => exact (form.written_opening gap _).append ih
  | group gap form inside behind ih => exact (form.written_opening gap _).append ih

/-- The last mark before the statements is a curly bracket. -/
theorem endsValue_opening (context : Context) (afterValue : Bool) :
    endsValue afterValue context.opening = false := by
  induction context generalizing afterValue with
  | innermost gap form front line => cases form <;> rfl
  | block gap form inside line ih => rw [opening, endsValue_append, ih]
  | group gap form inside behind ih => rw [opening, endsValue_append, ih]

theorem written_closing (context : Context) (back : List Char) : Written back context.closing := by
  induction context generalizing back with
  | innermost gap form front line =>
    exact .cons line.blank (fun afterValue => stands_closed afterValue _ rfl) .nil
  | block gap form inside line ih =>
    exact (ih _).append (.cons line.blank (fun afterValue => stands_closed afterValue _ rfl) .nil)
  | group gap form inside behind ih =>
    refine (ih _).append (.cons behind.blank (fun afterValue => ?_) .nil)
    exact stands_closed afterValue _ form.isClosed_closing

/-- The first mark behind the statements stands on a new line. -/
theorem exists_closing (context : Context) :
    ∃ x rest, context.closing = x :: rest ∧ '\n' ∈ x.gap := by
  induction context with
  | innermost gap form front line => exact ⟨_, [], rfl, line.lineFeed⟩
  | block gap form inside line ih | group gap form inside behind ih =>
    obtain ⟨first, rest, hclosing, hfeed⟩ := ih
    exact ⟨first, _, by rw [closing, hclosing, List.cons_append], hfeed⟩

/-- The tokens of a text, and then those of the marks behind it. -/
theorem exists_ofScanner_closing (context : Context) {file : String} {scanner : Scanner}
    {bs : List Token} {stop : Token} (h : TokenStream.ofScanner file scanner = ⟨bs, .ok stop⟩) :
    ∃ vs last, List.Forall₂ Spells context.closing vs ∧
      TokenStream.ofScanner file (scanner.before (chars context.closing)) =
        ⟨bs ++ vs, .ok last⟩ := by
  obtain ⟨x, rest, hclosing, hfeed⟩ := context.exists_closing
  have hwritten := context.written_closing []
  rw [hclosing] at hwritten ⊢
  obtain _ | ⟨hblank, hstands, hrest⟩ := hwritten
  obtain ⟨behind, hbehind, hstream⟩ := TokenStream.ofScanner_before_line h
    ⟨List.ne_nil_of_mem hfeed, hblank⟩ hfeed (hstands false)
  rw [List.append_nil] at hbehind hstream
  obtain ⟨last, hmarks⟩ := TokenStream.exists_ofScanner_of_written file hrest _ _
  obtain rfl := hbehind.trans hmarks
  rw [← chars_cons] at hstream
  refine ⟨_, last, .cons ?_ (spells_tokensAt file _ rest), hstream⟩
  exact ⟨rfl, rfl, (List.contains_iff_mem.mpr hfeed).symm⟩

/-- What stands before a source and behind it does not change its tokens, but their places and the
line break before the first of them. -/
theorem exists_ofSource_around (context : Context) {source file : String} {ts : List Token}
    {stop : Token} (h : TokenStream.ofSource source file = ⟨ts, .ok stop⟩) :
    ∃ (us vs : List Token) (lineBreak : Bool) (last : Token),
      List.Forall₂ Spells context.opening us ∧ List.Forall₂ Spells context.closing vs ∧
      TokenStream.ofSource (context.around source) file =
        ⟨us ++ ((TokenStream.moved ⟨ts, .ok stop⟩ context.before.utf8ByteSize lineBreak).tokens ++
          vs), .ok last⟩ := by
  obtain ⟨stop', hstop'⟩ := TokenStream.exists_moved ts stop context.before.utf8ByteSize
    (context.front.text.contains '\n')
  have hmoved := TokenStream.ofScanner_moved source file context.before.utf8ByteSize
    (context.front.text.contains '\n')
  rw [h] at hmoved
  obtain ⟨vs, last, hvs, hclosing⟩ := context.exists_ofScanner_closing
    (hmoved.trans hstop')
  have hwritten := context.written_opening
    (context.front.text ++ (source.toList ++ chars context.closing))
  have hopening := Scanner.reads_of_written file hwritten 0 false
  have hus := spells_tokensAt file 0 context.opening
  generalize tokensAt file 0 context.opening = us at hopening hus
  rw [context.endsValue_opening, Nat.zero_add] at hopening
  have hsize : context.before.utf8ByteSize =
      Utf8.size (chars context.opening) + Utf8.size context.front.text := by
    rw [before, Utf8.utf8ByteSize_ofList, Utf8.size_append]
  have hblank := TokenStream.ofScanner_blank file context.front.blank
    (source.toList ++ chars context.closing) (Utf8.size (chars context.opening))
  rw [← hsize] at hblank
  have hscanner : Scanner.ofSource (context.around source) = ⟨chars context.opening ++
      (context.front.text ++ (source.toList ++ chars context.closing)), 0, false, false⟩ := by
    simp [Scanner.ofSource, around, before, behind]
  refine ⟨us, vs, context.front.text.contains '\n', last, hus, hvs, ?_⟩
  rw [TokenStream.ofSource, hscanner, TokenStream.ofScanner_of_reads hopening, hblank]
  exact congrArg (fun stream => (⟨us ++ stream.tokens, stream.ending⟩ : TokenStream)) hclosing

end Context

end SurfaceGrammar

import SurfaceGrammar.Error
import SurfaceGrammar.Text.Whitespace

/-!
# Diagnostics

A diagnostic names an error and its source, quotes the line of the error without its
indentation, and marks the place with a caret:

```text
Error: UnexpectedToken (Unexpected token: `)`, expected one of: Identifier)
-> main
  |
2 | x : int = )
  | ----------^
```

Nothing follows the second line when the position lies outside the source.

* `Diagnostic.write`: the diagnostic, written piece by piece into any sink.
* `Diagnostic.render`: the diagnostic as a text.
* `Diagnostic.writeLimited`: the diagnostic in a sink that holds a limited number of bytes.
-/

namespace SurfaceGrammar.Diagnostic

/-- A text moved to the right end of a field that is filled up with one character. The width of the
field is unbounded; newer formatters limit it, so that they would not lay out a wider one. -/
def padLeft (fill : Char) (width : Nat) (text : String) : String :=
  String.ofList (List.replicate (width - text.length) fill) ++ text

/-- Whether a character indents a line. -/
def isIndent (c : Char) : Bool :=
  c = ' ' || c = '\t'

/-- Writes the diagnostic of an error piece by piece. The first write that fails ends it. -/
def write {m : Type → Type} [Monad m] (put : String → m Unit) (error : Error)
    (source : String) : m Unit := do
  match error.kind.tip? with
  | none => put ("Error: " ++ error.kind.name ++ "\n")
  | some tip => put ("Error: " ++ error.kind.name ++ " (" ++ tip ++ ")\n")
  put ("-> " ++ error.position.file ++ "\n")
  match lineAt? source error.position.offset.toNat with
  | none => pure ()
  | some line =>
    let number := toString line.number
    let margin := number.length + 2
    put (padLeft ' ' margin "|" ++ "\n")
    let indent := line.text.takeWhile isIndent
    let text := trimEnd (line.text.dropWhile isIndent)
    put (number ++ " | " ++ String.ofList text ++ "\n")
    let column := line.column - indent.length
    put (padLeft ' ' margin "|" ++ " " ++ padLeft '-' (column + 1) "^")

/-- Writes a text to the end of a text. -/
def append (piece : String) : StateM String Unit :=
  modify (· ++ piece)

/-- The diagnostic of an error as a text. -/
def render (error : Error) (source : String) : String :=
  ((write append error source).run "").2

/-- A sink that holds a limited number of bytes. A write fails once a character does not
fit, and the sink keeps the characters before it. -/
abbrev LimitedSink := EStateM Unit (List Char)

/-- Writes a text into a sink that holds at most `limit` bytes. -/
def putLimited (limit : Nat) (piece : String) : LimitedSink Unit := fun held =>
  let fitting := Utf8.fit (limit - Utf8.size held) piece.toList
  if fitting = piece.toList then .ok () (held ++ fitting) else .error () (held ++ fitting)

/-- Whether the diagnostic of an error fits into `limit` bytes, and what a sink of that
size holds after it was written. -/
def writeLimited (limit : Nat) (error : Error) (source : String) : Bool × String :=
  match write (putLimited limit) error source [] with
  | .ok () held => (true, String.ofList held)
  | .error () held => (false, String.ofList held)

end SurfaceGrammar.Diagnostic

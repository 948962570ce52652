import SurfaceGrammar.Token.Kind

/-!
# Operators

The operators of the language, each with the token that it is written with. Binary
operators have a power: of two neighbouring operators the one of greater power takes the
operand between them, and of two with equal power the left one.

* `Power`: the levels of binding.
* `BinaryOperator`, `Updater`, `SuffixOperator`: the operators.
* `BlockKind`: the words that open a block of statements.
-/

namespace SurfaceGrammar

/-- How tightly a binary operator holds its operands, from the loosest level on. -/
inductive Power where
  | default
  | comparison
  | additive
  | multiplicative
  | exponential
deriving DecidableEq, Inhabited

namespace Power

/-- The place of a level, counted from the loosest. -/
def rank : Power → Nat
  | default => 0
  | comparison => 1
  | additive => 2
  | multiplicative => 3
  | exponential => 4

instance : LE Power := ⟨fun first second => first.rank ≤ second.rank⟩

instance (first second : Power) : Decidable (first ≤ second) :=
  inferInstanceAs (Decidable (first.rank ≤ second.rank))

/-- The name of a level in records of a parse. -/
def name : Power → String
  | default => "Default"
  | comparison => "Comparison"
  | additive => "Additive"
  | multiplicative => "Multiplicative"
  | exponential => "Exponential"

end Power

/-- An operator between two operands. -/
inductive BinaryOperator where
  | equals
  | notEquals
  | less
  | greater
  | lessEquals
  | greaterEquals
  | subtype
  | plus
  | minus
  | and
  | or
  | multiply
  | divide
  | modulo
  | power
deriving DecidableEq, Inhabited

namespace BinaryOperator

/-- The operator that a token of the kind stands for. -/
def ofKind? : TokenKind → Option BinaryOperator
  | .equals => some equals
  | .notEquals => some notEquals
  | .less => some less
  | .greater => some greater
  | .lessEquals => some lessEquals
  | .greaterEquals => some greaterEquals
  | .subtype => some subtype
  | .plus => some plus
  | .dash => some minus
  | .ampersand => some and
  | .pipe => some or
  | .star => some multiply
  | .slash => some divide
  | .percent => some modulo
  | .caret => some power
  | _ => none

/-- The spelling of the operator. -/
def symbol : BinaryOperator → String
  | equals => "=="
  | notEquals => "!="
  | less => "<"
  | greater => ">"
  | lessEquals => "<="
  | greaterEquals => ">="
  | subtype => "<:"
  | plus => "+"
  | minus => "-"
  | and => "&"
  | or => "|"
  | multiply => "*"
  | divide => "/"
  | modulo => "%"
  | power => "^"

/-- The level of the operator. -/
def level : BinaryOperator → Power
  | equals | notEquals | less | greater | lessEquals | greaterEquals | subtype => .comparison
  | plus | minus | and | or => .additive
  | multiply | divide | modulo => .multiplicative
  | power => .exponential

end BinaryOperator

/-- An operator that changes the value of a label. -/
inductive Updater where
  | assign
  | add
  | subtract
  | multiply
  | divide
  | modulo
  | power
deriving DecidableEq, Inhabited

namespace Updater

/-- The operator that a token of the kind stands for. -/
def ofKind? : TokenKind → Option Updater
  | .leftArrow => some assign
  | .plusEquals => some add
  | .minusEquals => some subtract
  | .starEquals => some multiply
  | .slashEquals => some divide
  | .percentEquals => some modulo
  | .caretEquals => some power
  | _ => none

/-- The spelling of the operator. -/
def symbol : Updater → String
  | assign => "<-"
  | add => "+="
  | subtract => "-="
  | multiply => "*="
  | divide => "/="
  | modulo => "%="
  | power => "^="

theorem isSome_ofKind? (kind : TokenKind) : (ofKind? kind).isSome = kind.isUpdater := by
  cases kind <;> rfl

end Updater

/-- An operator after its only operand. -/
inductive SuffixOperator where
  | dot
  | dollar
  | hash
  | question
deriving DecidableEq, Inhabited

namespace SuffixOperator

/-- The operator that a token of the kind stands for. -/
def ofKind? : TokenKind → Option SuffixOperator
  | .dot => some dot
  | .dollar => some dollar
  | .hash => some hash
  | .question => some question
  | _ => none

/-- The spelling of the operator. -/
def symbol : SuffixOperator → String
  | dot => "."
  | dollar => "$"
  | hash => "#"
  | question => "?"

end SuffixOperator

/-- What a block of statements is opened with. -/
inductive BlockKind where
  | «do»
  | scope
deriving DecidableEq, Inhabited

/-- The word that opens the block. -/
def BlockKind.word : BlockKind → String
  | .do => "do"
  | .scope => "scope"

end SurfaceGrammar

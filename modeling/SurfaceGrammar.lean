import SurfaceGrammar.Diagnostic
import SurfaceGrammar.Parse.Grammar
import SurfaceGrammar.Proofs.Grammar.Canonical
import SurfaceGrammar.Proofs.Grammar.Continuation
import SurfaceGrammar.Proofs.Grammar.Cursors
import SurfaceGrammar.Proofs.Grammar.Dangling
import SurfaceGrammar.Proofs.Grammar.Delimited
import SurfaceGrammar.Proofs.Grammar.Expectations
import SurfaceGrammar.Proofs.Grammar.Foresight
import SurfaceGrammar.Proofs.Grammar.Independence
import SurfaceGrammar.Proofs.Grammar.Joining
import SurfaceGrammar.Proofs.Grammar.Legibility
import SurfaceGrammar.Proofs.Grammar.Locations
import SurfaceGrammar.Proofs.Grammar.Nesting
import SurfaceGrammar.Proofs.Grammar.Precedence
import SurfaceGrammar.Proofs.Grammar.Records
import SurfaceGrammar.Proofs.Grammar.Respacing
import SurfaceGrammar.Proofs.Grammar.ReturnTypes
import SurfaceGrammar.Proofs.Grammar.Sameness
import SurfaceGrammar.Proofs.Grammar.Scopes
import SurfaceGrammar.Proofs.Grammar.Separators
import SurfaceGrammar.Proofs.Grammar.Spans
import SurfaceGrammar.Proofs.Grammar.Spelling
import SurfaceGrammar.Proofs.Grammar.Stops
import SurfaceGrammar.Proofs.Grammar.Strictness
import SurfaceGrammar.Proofs.Grammar.Termination
import SurfaceGrammar.Proofs.Literal.RoundTrip
import SurfaceGrammar.Proofs.Literal.Units
import SurfaceGrammar.Proofs.Source.Carets
import SurfaceGrammar.Proofs.Source.Lookup
import SurfaceGrammar.Proofs.Source.Sinks
import SurfaceGrammar.Proofs.Token.Calls
import SurfaceGrammar.Proofs.Token.Newline
import SurfaceGrammar.Proofs.Token.Signs
import SurfaceGrammar.Proofs.Token.Tiling
import SurfaceGrammar.Token.Lexer
import SurfaceGrammar.Tree.Equality
import SurfaceGrammar.Tree.Rendering

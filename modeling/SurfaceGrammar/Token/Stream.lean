import SurfaceGrammar.Token.Scanner

/-!
# The tokens of a source

A token stream holds the tokens of a source in order and what comes after them: the token
for the end of the source or the error that stopped the scanner. The ending can be read any
number of times.

* `TokenStream.ofSource`: the tokens of a source.
* `TokenStream.read`: the first token of a stream and the stream after it.
* `tokenize`: all tokens of a source with the one for its end, or the error.
-/

namespace SurfaceGrammar

/-- Tokens in order, and what comes after them again and again. -/
structure TokenStream where
  tokens : List Token
  ending : Except Error Token

namespace TokenStream

/-- The tokens that a scanner finds. -/
def ofScanner (file : String) (scanner : Scanner) : TokenStream :=
  match _found : scanner.scan file with
  | .ended token _ => ⟨[], .ok token⟩
  | .failed error _ => ⟨[], .error error⟩
  | .token token next =>
    let stream := ofScanner file next
    ⟨token :: stream.tokens, stream.ending⟩
termination_by scanner.rest.length
decreasing_by exact Scanner.length_lt_of_scan _found

/-- The tokens of a source. -/
def ofSource (source file : String) : TokenStream :=
  ofScanner file (Scanner.ofSource source)

/-- The first token of a stream and the stream after it. The ending stays in place. -/
def read (stream : TokenStream) : Except Error (Token × TokenStream) :=
  match stream.tokens with
  | token :: tokens => .ok (token, { stream with tokens })
  | [] => stream.ending.map fun token => (token, stream)

/-- All tokens of a stream with the one for the end of the source. -/
def toList (stream : TokenStream) : Except Error (List Token) :=
  stream.ending.map fun token => stream.tokens ++ [token]

end TokenStream

/-- The tokens of a source, the last of them for its end. -/
def tokenize (source file : String) : Except Error (List Token) :=
  (TokenStream.ofSource source file).toList

end SurfaceGrammar

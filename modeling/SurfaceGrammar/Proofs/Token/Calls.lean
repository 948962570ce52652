import SurfaceGrammar.Proofs.Token.Faults
import SurfaceGrammar.Proofs.Token.Gaps
import SurfaceGrammar.Token.Lexer

/-!
# Calls of a lexer

A lexer from which tokens are taken, or at which they are looked at, answers from the stream of its
source. What a call gives depends on nothing but how many tokens were taken before: a look changes
no later answer, and the ending of the stream is given again and again.

* `TokenStream.reading`: what is read from a stream at an index.
* `Lexer.Call`, `Lexer.answers?`: calls of a lexer and what they give.
* `Lexer.Offers`: a lexer gives what is read from a stream.
* `Lexer.Offers.exists_answer?`: a single call.
* `TokenStream.getElem?_answers`: the answer to each call, by the number of tokens taken before.
* `answers_of_calls`: any calls of a lexer that was made for a source.
-/

namespace SurfaceGrammar

/-! ## Streams -/

/-- A call of a lexer: the next token is taken, or it is looked at. -/
inductive Lexer.Call where
  | take
  | look
deriving DecidableEq

namespace TokenStream

variable {stream : TokenStream}

/-- What is read from a stream at an index: the token there, or the ending from then on. -/
def reading (stream : TokenStream) (i : Nat) : Except Error Token :=
  match stream.tokens[i]? with
  | some t => .ok t
  | none => stream.ending

/-- The stream without its first token. -/
def rest (stream : TokenStream) : TokenStream :=
  { stream with tokens := stream.tokens.tail }

/-- The stream that is left after a call. -/
def after (stream : TokenStream) : Lexer.Call → TokenStream
  | .take => stream.rest
  | .look => stream

/-- The answers to calls, from the tokens of a stream. -/
def answers : TokenStream → List Lexer.Call → List (Except Error Token)
  | _, [] => []
  | stream, call :: calls => stream.reading 0 :: (stream.after call).answers calls

@[simp] theorem reading_rest (stream : TokenStream) (i : Nat) :
    stream.rest.reading i = stream.reading (i + 1) := by
  simp [reading, rest]

theorem reading_of_lt {t : Token} {i : Nat} (h : stream.tokens[i]? = some t) :
    stream.reading i = .ok t := by
  simp [reading, h]

theorem reading_of_le {i : Nat} (h : stream.tokens.length ≤ i) :
    stream.reading i = stream.ending := by
  simp [reading, h]

/-- Nothing is left behind an error. -/
theorem rest_of_error {e : Error} (h : stream.reading 0 = .error e) : stream.rest = stream := by
  obtain ⟨_ | ⟨t, ts⟩, ending⟩ := stream
  · rfl
  · cases h

/-- Once the ending is read it is read again and again. -/
theorem reading_of_ending (hproper : stream.Proper) {i j : Nat} (hij : i ≤ j)
    (h : ∀ t, stream.reading i = .ok t → t.kind = .eof) :
    stream.reading j = stream.reading i := by
  have hi : stream.tokens.length ≤ i := by
    refine Nat.le_of_not_lt fun hlt => ?_
    have ht : stream.tokens[i]? = some stream.tokens[i] := List.getElem?_eq_getElem hlt
    exact (hproper.tokens _ (List.getElem_mem hlt)).ne_eof (h _ (reading_of_lt ht))
  rw [reading_of_le hi, reading_of_le (Nat.le_trans hi hij)]

/-- At the end and before an error nothing is changed by scanning again. -/
theorem ofScanner_skipTrivia (file : String) (scanner : Scanner) :
    ofScanner file scanner.skipTrivia = ofScanner file scanner := by
  have hskip : scanner.skipTrivia.skipTrivia = scanner.skipTrivia :=
    Scanner.skipTrivia_of_none (Scanner.take?_rest_skipTrivia scanner)
  exact ofScanner_congr (Scanner.scan_of_skipTrivia hskip)

/-! ## Answers -/

/-- The answer to each call is what is read behind the tokens that were taken before it. -/
theorem getElem?_answers (stream : TokenStream) (calls : List Lexer.Call) (i : Nat) :
    (stream.answers calls)[i]? =
      calls[i]?.map fun _ => stream.reading ((calls.take i).count .take) := by
  induction calls generalizing stream i with
  | nil => rfl
  | cons call calls ih =>
    cases i with
    | zero => simp [answers]
    | succ i =>
      rw [answers, List.getElem?_cons_succ, ih]
      cases call <;> simp [after]

/-- Looks between two calls take nothing. -/
theorem count_take_of_look {calls : List Lexer.Call} {i j : Nat} (hij : i ≤ j)
    (h : ∀ k, i ≤ k → k < j → calls[k]? = some .look) :
    (calls.take j).count .take = (calls.take i).count .take := by
  induction hij with
  | refl => rfl
  | @step j hij ih =>
    rw [List.take_add_one, h j hij (Nat.lt_succ_self j), List.count_append,
      ih fun k hik hkj => h k hik (Nat.lt_succ_of_lt hkj)]
    rfl

/-- What is given once nothing but the ending is left to read is given by every further call. -/
theorem answer_of_ending (hproper : stream.Proper) {calls : List Lexer.Call} {i j : Nat}
    {answer other : Except Error Token} (hij : i ≤ j)
    (hi : (stream.answers calls)[i]? = some answer) (hj : (stream.answers calls)[j]? = some other)
    (h : ∀ t, answer = .ok t → t.kind = .eof) : other = answer := by
  rw [getElem?_answers, Option.map_eq_some_iff] at hi hj
  obtain ⟨-, -, rfl⟩ := hi
  obtain ⟨-, -, rfl⟩ := hj
  have hcount : (calls.take i).count .take ≤ (calls.take j).count .take :=
    (List.take_sublist_take_left hij).count_le _
  exact reading_of_ending hproper hcount h

theorem length_answers (stream : TokenStream) (calls : List Lexer.Call) :
    (stream.answers calls).length = calls.length := by
  induction calls generalizing stream with
  | nil => rfl
  | cons call calls ih => simp [answers, ih]

end TokenStream

namespace Lexer

/-- The answers to those calls that take a token. -/
def taken {β : Type} : List Call → List β → List β
  | .take :: calls, answer :: answers => answer :: taken calls answers
  | .look :: calls, _ :: answers => taken calls answers
  | _, _ => []

/-- The calls that take a token get the tokens of the stream in order, and then its ending. -/
theorem taken_answers (stream : TokenStream) (calls : List Call) :
    taken calls (stream.answers calls) =
      (List.range (calls.count .take)).map stream.reading := by
  induction calls generalizing stream with
  | nil => rfl
  | cons call calls ih =>
    cases call with
    | take =>
      rw [List.count_cons_self, List.range_succ_eq_map, TokenStream.answers, taken, ih]
      simp [TokenStream.after, Function.comp_def]
    | look =>
      rw [TokenStream.answers, taken, ih, List.count_cons_of_ne (by decide)]
      rfl

theorem reading_of_taken {stream : TokenStream} {calls : List Call} {i : Nat}
    {answer : Except Error Token} (h : (taken calls (stream.answers calls))[i]? = some answer) :
    answer = stream.reading i := by
  rw [taken_answers, List.getElem?_map, Option.map_eq_some_iff] at h
  obtain ⟨k, hk, rfl⟩ := h
  obtain ⟨hlt, rfl⟩ := List.getElem?_eq_some_iff.mp hk
  rw [List.getElem_range]

/-- Calls that look at a token can be left out. -/
theorem answers_filter (stream : TokenStream) (calls : List Call) :
    stream.answers (calls.filter (· = .take)) = taken calls (stream.answers calls) := by
  induction calls generalizing stream with
  | nil => rfl
  | cons call calls ih =>
    cases call with
    | take => simp [TokenStream.answers, taken, TokenStream.after, ih]
    | look => simp [TokenStream.answers, taken, TokenStream.after, ih]

/-! ## Lexers -/

/-- What a call gives, and the lexer after it. -/
def answer? (lexer : Lexer) : Call → Option (Except Error Token × Lexer)
  | .take => lexer.next?
  | .look => lexer.peek?

/-- What calls give that are made one after another. -/
def answers? : Lexer → List Call → Option (List (Except Error Token))
  | _, [] => some []
  | lexer, call :: calls => do
    let (answer, lexer) ← lexer.answer? call
    let answers ← lexer.answers? calls
    return answer :: answers

/-- The lexer gives what is read from a stream. A token that was looked at is the first one of the
stream, and the scanner stands behind it. -/
inductive Offers (lexer : Lexer) : TokenStream → Prop
  | unseen (beyond : lexer.beyond = 0) (peeked : lexer.peeked = none) :
    Offers lexer (.ofScanner lexer.file lexer.scanner)
  | seen {stream : TokenStream} {t : Token} (beyond : lexer.beyond = 0)
    (peeked : lexer.peeked = some t) (first : stream.reading 0 = .ok t)
    (rest : TokenStream.ofScanner lexer.file lexer.scanner = stream.rest) : Offers lexer stream

variable {lexer : Lexer} {stream : TokenStream}

/-- A scan gives what is read first, and the scanner goes on with the rest. -/
theorem exists_scan? (h : lexer.beyond = 0) : ∃ scanner,
    lexer.scan? = some ((TokenStream.ofScanner lexer.file lexer.scanner).reading 0,
      { lexer with scanner }) ∧
    TokenStream.ofScanner lexer.file scanner =
      (TokenStream.ofScanner lexer.file lexer.scanner).rest := by
  rw [scan?, if_pos h]
  cases hscan : lexer.scanner.scan lexer.file with
  | token t next =>
    rw [TokenStream.ofScanner_of_token hscan]
    exact ⟨next, rfl, rfl⟩
  | ended t stay =>
    obtain ⟨-, -, rfl⟩ := Scanner.scan_eq_ended_iff.mp hscan
    have hstream := TokenStream.ofScanner_of_ended hscan
    refine ⟨lexer.scanner.skipTrivia, ?_, ?_⟩
    · rw [hstream]
      rfl
    · rw [TokenStream.ofScanner_skipTrivia, hstream]
      rfl
  | failed e stay =>
    obtain rfl := Scanner.stay_of_scan_failed hscan
    have hstream := TokenStream.ofScanner_of_failed hscan
    refine ⟨lexer.scanner.skipTrivia, ?_, ?_⟩
    · rw [hstream]
      rfl
    · rw [TokenStream.ofScanner_skipTrivia, hstream]
      rfl

/-- A call gives what is read first, and the lexer goes on with what the call leaves. -/
theorem Offers.exists_answer? (h : lexer.Offers stream) (call : Call) :
    ∃ other, lexer.answer? call = some (stream.reading 0, other) ∧
      other.Offers (stream.after call) := by
  cases h with
  | unseen beyond peeked =>
    obtain ⟨scanner, hscan, hrest⟩ := exists_scan? beyond
    cases call with
    | take =>
      refine ⟨{ lexer with scanner }, ?_, ?_⟩
      · simp only [answer?, next?, peeked, hscan]
      · rw [TokenStream.after, ← hrest]
        exact .unseen beyond peeked
    | look =>
      simp only [answer?, peek?, peeked, hscan, TokenStream.after]
      generalize TokenStream.ofScanner lexer.file lexer.scanner = stream at hrest
      cases hfirst : stream.reading 0 with
      | ok t => exact ⟨_, rfl, .seen beyond rfl hfirst hrest⟩
      | error e =>
        refine ⟨{ lexer with scanner, peeked := none }, rfl, ?_⟩
        rw [← TokenStream.rest_of_error hfirst, ← hrest]
        exact .unseen beyond rfl
  | @seen stream t beyond peeked first rest =>
    rw [first]
    cases call with
    | take =>
      refine ⟨{ lexer with peeked := none }, ?_, ?_⟩
      · simp only [answer?, next?, peeked]
      · rw [TokenStream.after, ← rest]
        exact .unseen beyond rfl
    | look =>
      refine ⟨lexer, ?_, .seen beyond peeked first rest⟩
      simp only [answer?, peek?, peeked]

/-- Calls give the answers from the stream, one after another. -/
theorem Offers.answers?_eq (h : lexer.Offers stream) (calls : List Call) :
    lexer.answers? calls = some (stream.answers calls) := by
  induction calls generalizing lexer stream with
  | nil => rfl
  | cons call calls ih =>
    obtain ⟨other, hcall, hother⟩ := h.exists_answer? call
    simp [answers?, hcall, ih hother, TokenStream.answers]

theorem offers_ofSource (source file : String) :
    (ofSource source file).Offers (.ofSource source file) :=
  .unseen rfl rfl

end Lexer

/-! ## The main statement -/

/-- Calls of a lexer that was made for a source always give an answer. The calls that take a token
get what they get without those that look at one, which are the tokens of the source as far as
there are any. A look gives what the next call that takes a token gives. And once the token for the
end or an error was given, every further call gives the same. -/
theorem answers_of_calls (source file : String) (calls : List Lexer.Call) :
    ∃ answers, (Lexer.ofSource source file).answers? calls = some answers ∧
      answers.length = calls.length ∧
      (Lexer.ofSource source file).answers? (calls.filter (· = .take)) =
        some (Lexer.taken calls answers) ∧
      (∀ tokens, tokenize source file = .ok tokens → ∀ (i : Nat) answer t,
        (Lexer.taken calls answers)[i]? = some answer → tokens[i]? = some t → answer = .ok t) ∧
      (∀ fault, tokenize source file = .error fault → ∀ (i : Nat) answer,
        (Lexer.taken calls answers)[i]? = some answer → answer =
          ((TokenStream.ofSource source file).tokens[i]?.map .ok).getD (.error fault)) ∧
      (∀ i j : Nat, i < j → calls[i]? = some Lexer.Call.look → calls[j]? = some Lexer.Call.take →
        (∀ k, i < k → k < j → calls[k]? = some Lexer.Call.look) → answers[i]? = answers[j]?) ∧
      (∀ (i j : Nat) stop answer, i ≤ j → answers[i]? = some (.ok stop) → stop.kind = .eof →
        answers[j]? = some answer → answer = .ok stop) ∧
      ∀ (i j : Nat) fault answer, i ≤ j → answers[i]? = some (.error fault) →
        answers[j]? = some answer → answer = .error fault := by
  have hoffers := Lexer.offers_ofSource source file
  have hproper := TokenStream.proper_ofScanner file (Scanner.ofSource source)
  change (TokenStream.ofSource source file).Proper at hproper
  refine ⟨_, hoffers.answers?_eq calls, TokenStream.length_answers _ calls, ?_, ?_, ?_, ?_, ?_, ?_⟩
  · rw [hoffers.answers?_eq, Lexer.answers_filter]
  · intro tokens htokens i answer t hanswer ht
    obtain ⟨us, stop, hstream, rfl⟩ := tokenize_eq_ok_iff.mp htokens
    obtain rfl := Lexer.reading_of_taken hanswer
    rw [hstream]
    obtain hlt | hle := Nat.lt_or_ge i us.length
    · rw [List.getElem?_append_left hlt] at ht
      exact TokenStream.reading_of_lt ht
    · rw [TokenStream.reading_of_le hle]
      rw [List.getElem?_append_right hle, List.getElem?_singleton] at ht
      split at ht <;> cases ht
      rfl
  · intro fault hfault i answer hanswer
    obtain rfl := Lexer.reading_of_taken hanswer
    have hending := tokenize_eq_error_iff.mp hfault
    unfold TokenStream.reading
    cases (TokenStream.ofSource source file).tokens[i]? <;> simp [hending]
  · intro i j hij hi hj hbetween
    have hlooks : ∀ k, i ≤ k → k < j → calls[k]? = some .look := fun k hik hkj => by
      obtain rfl | hlt := Nat.eq_or_lt_of_le hik
      · exact hi
      · exact hbetween k hlt hkj
    rw [TokenStream.getElem?_answers, TokenStream.getElem?_answers, hi, hj,
      TokenStream.count_take_of_look (Nat.le_of_lt hij) hlooks]
    rfl
  · intro i j stop answer hij hi hstop hj
    refine TokenStream.answer_of_ending hproper hij hi hj fun t ht => ?_
    cases ht
    exact hstop
  · intro i j fault answer hij hi hj
    exact TokenStream.answer_of_ending hproper hij hi hj nofun

end SurfaceGrammar

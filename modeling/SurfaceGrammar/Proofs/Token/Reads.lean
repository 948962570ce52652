import SurfaceGrammar.Token.Stream

/-!
# What a scanner reads

The tokens of a source are read one after another, each by a scan from where the one before it
stopped. This file takes the stream of a source apart into these scans and says what holds of
every token that is read.

* `Token.Proper`: what the tokens of a source have in common.
* `Scanner.scan_eq_token_iff`, `Scanner.scan_eq_ended_iff`, `Scanner.scan_eq_failed_iff`: what a
  scan does, past the white space and the comments before it.
* `Scanner.Reads`: from one place to another a scanner reads a list of tokens.
* `TokenStream.reads_ofScanner`, `TokenStream.ofScanner_of_reads`: the stream of a scanner, taken
  apart and put together.
* `TokenStream.proper_ofScanner`: the tokens of a stream are proper.
-/

namespace SurfaceGrammar

/-! ## Tokens -/

/-- A kind to which something belongs is not one to which nothing belongs. -/
theorem TokenKind.ne_of_some {α : Type} {f : TokenKind → Option α} {kind other : TokenKind} {a : α}
    (h : f kind = some a) (hother : f other = none) : kind ≠ other := by
  rintro rfl
  rw [hother] at h
  cases h

namespace Token

variable {t : Token} {keyword : Keyword}

theorem keyword?_eq_none (h : t.kind ≠ .identifier) : t.keyword? = none :=
  if_neg h

theorem kind_of_keyword? (h : t.keyword? = some keyword) : t.kind = .identifier := by
  by_cases hkind : t.kind = .identifier
  · exact hkind
  · rw [keyword?_eq_none hkind] at h
    cases h

theorem ne_eof_of_keyword? (h : t.keyword? = some keyword) : t.kind ≠ .eof := by
  rw [kind_of_keyword? h]
  decide

theorem isKeyword_iff : t.isKeyword keyword = true ↔ t.keyword? = some keyword := by
  simp [isKeyword]

theorem ne_dot_of_isKeyword (h : t.isKeyword keyword = true) : t.kind ≠ .dot := by
  rw [kind_of_keyword? (isKeyword_iff.mp h)]
  decide

/-- A token of a source is not the one for its end, and a char token holds exactly one
character. -/
structure Proper (t : Token) : Prop where
  ne_eof : t.kind ≠ .eof
  single : t.kind = .char → ∃ x, t.value.toList = [x]

end Token

namespace Lexeme

/-- What holds of the kind and the value of every lexeme. -/
structure Proper (l : Lexeme) : Prop where
  ne_eof : l.kind ≠ .eof
  single : l.kind = .char → ∃ x, l.value.toList = [x]

theorem proper_of_symbol {c : Char} {text : List Char} {l : Lexeme} (h : symbol c text = .ok l) :
    l.Proper := by
  unfold symbol at h
  split at h
  · next spelling kind hfind =>
    cases h
    have hall : ∀ entry ∈ symbols, entry.2 ≠ .eof ∧ entry.2 ≠ .char := by decide
    obtain ⟨hne, hchar⟩ := hall _ (List.mem_of_find?_eq_some hfind)
    exact ⟨hne, fun h => absurd h hchar⟩
  · cases h

theorem proper_of_quoted {kind : TokenKind} {quote : Char} {text : List Char} {l : Lexeme}
    (hkind : kind ≠ .eof) (h : quoted kind quote text = .ok l) : l.Proper := by
  unfold quoted at h
  split at h
  · cases h
  · split at h
    · cases h
    · next value _ =>
      dsimp only at h
      split at h
      · cases h
      · next hlength =>
        cases h
        refine ⟨hkind, fun hchar => ?_⟩
        have hone : value.length = 1 := by
          by_cases hlen : value.length = 1
          · exact hlen
          · exact absurd ⟨hchar, hlen⟩ hlength
        obtain ⟨x, rfl⟩ := List.length_eq_one_iff.mp hone
        exact ⟨x, by simp⟩

/-- A lexeme that is neither for a char literal nor for the end is proper. -/
theorem proper_of_kind {l : Lexeme} (hne : l.kind ≠ .eof) (hchar : l.kind ≠ .char) : l.Proper :=
  ⟨hne, fun h => absurd h hchar⟩

theorem proper_of_recognise {afterValue : Bool} {c : Char} {text : List Char} {l : Lexeme}
    (h : recognise afterValue c text = .ok l) : l.Proper := by
  unfold recognise at h
  split at h
  · cases h
    exact proper_of_kind nofun nofun
  · split at h
    · exact proper_of_quoted (by decide) h
    · split at h
      · exact proper_of_quoted (by decide) h
      · split at h
        · cases h
        · split at h
          · split at h
            · split at h
              · cases h
                exact proper_of_kind nofun nofun
              · cases h
                exact proper_of_kind nofun nofun
            · exact proper_of_symbol h
          · split at h
            · cases h
              exact proper_of_kind nofun nofun
            · exact proper_of_symbol h

end Lexeme

/-! ## Scans -/

namespace Scanner

variable {file : String} {scanner next middle last stay : Scanner} {t : Token}
  {ts us : List Token} {e : Error}

/-- A scan takes the lexeme behind the white space and the comments for its token. -/
theorem scan_eq_token_iff : scanner.scan file = .token t next ↔
    ∃ c text l, scanner.skipTrivia.rest = c :: text ∧
      Lexeme.recognise scanner.skipTrivia.afterValue c text = .ok l ∧
      scanner.skipTrivia.emit file l = (t, next) := by
  unfold scan
  dsimp only
  constructor
  · intro h
    split at h
    · cases h
    · next c text hrest =>
      split at h
      · next l hl =>
        cases h
        exact ⟨c, text, l, hrest, hl, rfl⟩
      · cases h
  · rintro ⟨c, text, l, hrest, hl, hemit⟩
    rw [hrest]
    dsimp only
    rw [hl]
    dsimp only
    rw [hemit]

/-- A scan for a token ends the stream where nothing but white space and comments is left. -/
theorem scan_eq_ended_iff : scanner.scan file = .ended t next ↔
    scanner.skipTrivia.rest = [] ∧ t = scanner.skipTrivia.endToken file ∧
      next = scanner.skipTrivia := by
  unfold scan
  dsimp only
  constructor
  · intro h
    split at h
    · next hrest =>
      cases h
      exact ⟨hrest, rfl, rfl⟩
    · split at h <;> cases h
  · rintro ⟨hrest, rfl, rfl⟩
    rw [hrest]

/-- A scan fails where no lexeme stands behind the white space and the comments. -/
theorem scan_eq_failed_iff : scanner.scan file = .failed e stay ↔
    ∃ c text f, scanner.skipTrivia.rest = c :: text ∧
      Lexeme.recognise scanner.skipTrivia.afterValue c text = .error f ∧
      e = ⟨f.kind, .ofOffset (scanner.skipTrivia.offset + f.index) file⟩ ∧
      stay = scanner.skipTrivia := by
  unfold scan
  dsimp only
  constructor
  · intro h
    split at h
    · cases h
    · next c text hrest =>
      split at h
      · cases h
      · next f hf =>
        cases h
        exact ⟨c, text, f, hrest, hf, rfl, rfl⟩
  · rintro ⟨c, text, f, hrest, hf, rfl, rfl⟩
    rw [hrest]
    dsimp only
    rw [hf]

theorem proper_of_scan (h : scanner.scan file = .token t next) : t.Proper := by
  obtain ⟨c, text, l, -, hl, hemit⟩ := scan_eq_token_iff.mp h
  obtain ⟨hne, hsingle⟩ := Lexeme.proper_of_recognise hl
  cases hemit
  exact ⟨hne, hsingle⟩

theorem kind_of_scan_ended (h : scanner.scan file = .ended t next) : t.kind = .eof := by
  obtain ⟨-, rfl, -⟩ := scan_eq_ended_iff.mp h
  rfl

/-- From one place to another a scanner reads a list of tokens. -/
inductive Reads (file : String) : Scanner → List Token → Scanner → Prop
  | refl (scanner : Scanner) : Reads file scanner [] scanner
  | step {scanner next last : Scanner} {t : Token} {ts : List Token}
      (head : scanner.scan file = .token t next) (tail : Reads file next ts last) :
      Reads file scanner (t :: ts) last

namespace Reads

theorem trans (h : Reads file scanner ts middle) (h' : Reads file middle us last) :
    Reads file scanner (ts ++ us) last := by
  induction h with
  | refl => exact h'
  | step head _ ih => exact .step head (ih h')

theorem proper (h : Reads file scanner ts last) : ∀ t ∈ ts, t.Proper := by
  induction h with
  | refl => simp
  | step head _ ih =>
    intro u hu
    obtain rfl | hu := List.mem_cons.mp hu
    · exact proper_of_scan head
    · exact ih u hu

end Reads

end Scanner

/-! ## Streams -/

namespace TokenStream

variable {file : String}

theorem ofScanner_of_ended {scanner stay : Scanner} {t : Token}
    (h : scanner.scan file = .ended t stay) : ofScanner file scanner = ⟨[], .ok t⟩ := by
  unfold ofScanner
  split <;> simp_all

theorem ofScanner_of_failed {scanner stay : Scanner} {error : Error}
    (h : scanner.scan file = .failed error stay) :
    ofScanner file scanner = ⟨[], .error error⟩ := by
  unfold ofScanner
  split <;> simp_all

theorem ofScanner_of_token {scanner next : Scanner} {t : Token}
    (h : scanner.scan file = .token t next) :
    ofScanner file scanner =
      ⟨t :: (ofScanner file next).tokens, (ofScanner file next).ending⟩ := by
  rw [ofScanner]
  split <;> simp_all

/-- The tokens that a scanner reads stand at the beginning of its stream. -/
theorem ofScanner_of_reads {scanner last : Scanner} {ts : List Token}
    (h : scanner.Reads file ts last) :
    ofScanner file scanner =
      ⟨ts ++ (ofScanner file last).tokens, (ofScanner file last).ending⟩ := by
  induction h with
  | refl => rfl
  | step head _ ih => rw [ofScanner_of_token head, ih, List.cons_append]

/-- A scanner reads the tokens of its stream, and what stops it is the ending of the stream. -/
theorem reads_ofScanner (file : String) (scanner : Scanner) :
    ∃ last, scanner.Reads file (ofScanner file scanner).tokens last ∧
      ((∃ t stay, last.scan file = .ended t stay ∧ (ofScanner file scanner).ending = .ok t) ∨
        ∃ error stay, last.scan file = .failed error stay ∧
          (ofScanner file scanner).ending = .error error) := by
  fun_induction ofScanner file scanner with
  | case1 scanner t stay h => exact ⟨scanner, .refl scanner, .inl ⟨t, stay, h, rfl⟩⟩
  | case2 scanner error stay h => exact ⟨scanner, .refl scanner, .inr ⟨error, stay, h, rfl⟩⟩
  | case3 scanner t next h stream ih =>
    obtain ⟨last, hreads, hending⟩ := ih
    exact ⟨last, .step h hreads, hending⟩

/-- Behind the tokens of a stream that can all be read, the end stops the scanner. -/
theorem exists_scan_ended {scanner : Scanner} {ts : List Token} {stop : Token}
    (h : ofScanner file scanner = ⟨ts, .ok stop⟩) :
    ∃ last t stay, scanner.Reads file ts last ∧ last.scan file = .ended t stay := by
  obtain ⟨last, hreads, hending⟩ := reads_ofScanner file scanner
  rw [h] at hreads hending
  obtain ⟨t, stay, hscan, -⟩ | ⟨error, stay, -, herror⟩ := hending
  · exact ⟨last, t, stay, hreads, hscan⟩
  · cases herror

/-- What holds of the stream of every source: the token for the end stands only at the end. -/
structure Proper (stream : TokenStream) : Prop where
  tokens : ∀ t ∈ stream.tokens, t.Proper
  ending : ∀ t, stream.ending = .ok t → t.kind = .eof

theorem proper_ofScanner (file : String) (scanner : Scanner) : (ofScanner file scanner).Proper := by
  obtain ⟨last, hreads, hending⟩ := reads_ofScanner file scanner
  refine ⟨hreads.proper, fun t ht => ?_⟩
  obtain ⟨u, stay, hscan, hu⟩ | ⟨error, stay, -, herror⟩ := hending
  · rw [hu] at ht
    cases ht
    exact Scanner.kind_of_scan_ended hscan
  · rw [herror] at ht
    cases ht

end TokenStream

/-! ## All tokens of a source -/

theorem tokenize_eq_ok_iff {source file : String} {ts : List Token} :
    tokenize source file = .ok ts ↔ ∃ us stop,
      TokenStream.ofSource source file = ⟨us, .ok stop⟩ ∧ ts = us ++ [stop] := by
  unfold tokenize TokenStream.toList
  generalize TokenStream.ofSource source file = stream
  obtain ⟨us, ending⟩ := stream
  cases ending with
  | error e =>
    constructor
    · nofun
    · rintro ⟨us', stop, hstream, -⟩
      cases hstream
  | ok stop =>
    constructor
    · intro h
      cases h
      exact ⟨us, stop, rfl, rfl⟩
    · rintro ⟨us', stop', hstream, rfl⟩
      cases hstream
      rfl

theorem tokenize_eq_error_iff {source file : String} {fault : Error} :
    tokenize source file = .error fault ↔
      (TokenStream.ofSource source file).ending = .error fault := by
  unfold tokenize TokenStream.toList
  cases (TokenStream.ofSource source file).ending with
  | error e => simp [Except.map]
  | ok stop => simp [Except.map]

end SurfaceGrammar

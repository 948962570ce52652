import SurfaceGrammar.Proofs.Token.Faults

/-!
# The language of literal bodies

A body is read as a sequence of units: a character other than the backslash, or one of the six
escapes. This module states that language without the reader, and shows that the reader accepts
exactly its words, that it stops at the end of the longest beginning that is one, and that reading
a body goes on behind any word of the language.

* `Escape.IsUnit`, `Escape.Spells`: the units, and the bodies that are sequences of them.
* `Escape.decodeFrom_append`: reading goes on behind a word of the language.
* `Escape.exists_refusal`: where the reader stops in a body outside the language.
* `Escape.decodeAt_units`: what the reader gives for every body.
-/

namespace SurfaceGrammar.Escape

/-- A hexadecimal digit and its value. -/
def IsDigit (c : Char) (n : Nat) : Prop :=
  "0123456789abcdef".toList[n]? = some c ∨ "0123456789ABCDEF".toList[n]? = some c

/-- A unit of a body, and the character it stands for. -/
inductive IsUnit : List Char → Char → Prop
  | plain {c : Char} (ne : c ≠ '\\') : IsUnit [c] c
  | backslash : IsUnit ['\\', '\\'] '\\'
  | doubleQuote : IsUnit ['\\', '"'] '"'
  | singleQuote : IsUnit ['\\', '\''] '\''
  | lineFeed : IsUnit ['\\', 'n'] '\n'
  | tab : IsUnit ['\\', 't'] '\t'
  | byte {high low : Char} {m n : Nat} (first : IsDigit high m) (second : IsDigit low n) :
      IsUnit ['\\', 'x', high, low] (Char.ofNat (16 * m + n))

/-- A body that is a sequence of units, and the characters these stand for. -/
inductive Spells : List Char → List Char → Prop
  | nil : Spells [] []
  | cons {unit body text : List Char} {c : Char} (head : IsUnit unit c) (tail : Spells body text) :
      Spells (unit ++ body) (c :: text)

/-- The longest beginning of a body that is a sequence of units. -/
structure LongestSpelled (front body : List Char) : Prop where
  spelled : ∃ text, Spells front text
  begins : front <+: body
  longest : ∀ other, other <+: body → (∃ text, Spells other text) → other.length ≤ front.length

/-! ## Digits -/

/-- The reader gives a digit its value. -/
theorem IsDigit.spec {c : Char} {n : Nat} (h : IsDigit c n) :
    isHexDigit c = true ∧ hexValue c = n := by
  have hall : (∀ i : Fin "0123456789abcdef".toList.length,
      isHexDigit ("0123456789abcdef".toList.get i) = true ∧
        hexValue ("0123456789abcdef".toList.get i) = i) ∧
      ∀ i : Fin "0123456789ABCDEF".toList.length,
        isHexDigit ("0123456789ABCDEF".toList.get i) = true ∧
          hexValue ("0123456789ABCDEF".toList.get i) = i := by
    decide +kernel
  rcases h with hlower | hupper
  · obtain ⟨hlt, rfl⟩ := List.getElem?_eq_some_iff.mp hlower
    exact hall.1 ⟨n, hlt⟩
  · obtain ⟨hlt, rfl⟩ := List.getElem?_eq_some_iff.mp hupper
    exact hall.2 ⟨n, hlt⟩

/-- Every digit of the reader is one, with the value that the reader gives it. -/
theorem isDigit_of_isHexDigit {c : Char} (h : isHexDigit c = true) : IsDigit c (hexValue c) := by
  have hall : ∀ n < 128, isHexDigit (Char.ofNat n) = true →
      "0123456789abcdef".toList[hexValue (Char.ofNat n)]? = some (Char.ofNat n) ∨
        "0123456789ABCDEF".toList[hexValue (Char.ofNat n)]? = some (Char.ofNat n) := by
    decide +kernel
  have hlt : c.toNat < 128 :=
    Nat.lt_succ_of_le (Char.utf8Size_eq_one_iff.mp (utf8Size_of_isHexDigit h))
  have hc := hall c.toNat hlt
  rw [Char.ofNat_toNat] at hc
  exact hc h

/-- An escape with two digits has four bytes. -/
theorem size_byte {high low : Char} (hhigh : isHexDigit high = true)
    (hlow : isHexDigit low = true) : Utf8.size ['\\', 'x', high, low] = 4 := by
  simp only [Utf8.size_cons, utf8Size_of_isHexDigit hhigh, utf8Size_of_isHexDigit hlow]
  rfl

/-! ## What the reader accepts -/

section Reader

variable {body text unit : List Char} {c : Char} {index : Nat} {invalid : Invalid}

theorem isUnit_of_simple? {e : Char} (h : simple? e = some c) : IsUnit ['\\', e] c := by
  unfold simple? at h
  split at h
  · cases h
    exact .backslash
  · cases h
    exact .doubleQuote
  · cases h
    exact .singleQuote
  · cases h
    exact .lineFeed
  · cases h
    exact .tab
  · cases h

/-- The reader takes a unit as a whole. -/
theorem decodeFrom_unit (index : Nat) (body : List Char) (h : IsUnit unit c) :
    decodeFrom index (unit ++ body) = (c :: ·) <$> decodeFrom (index + Utf8.size unit) body := by
  cases h with
  | plain ne =>
    rw [List.singleton_append, decodeFrom.eq_def]
    exact if_pos ne
  | @byte high low m n first second =>
    obtain ⟨hhigh, hm⟩ := first.spec
    obtain ⟨hlow, hn⟩ := second.spec
    rw [size_byte hhigh hlow, ← hm, ← hn, decodeFrom.eq_def]
    dsimp only [List.cons_append, List.nil_append]
    rw [if_neg (by decide), if_pos rfl, if_pos hhigh, if_pos hlow]
  | _ =>
    rw [decodeFrom.eq_def]
    rfl

/-- Behind a sequence of units the reader goes on as at a beginning. -/
theorem decodeFrom_append (index : Nat) (more : List Char) (h : Spells body text) :
    decodeFrom index (body ++ more) =
      (text ++ ·) <$> decodeFrom (index + Utf8.size body) more := by
  induction h generalizing index with
  | nil =>
    show decodeFrom index more = id <$> decodeFrom index more
    exact (id_map _).symm
  | @cons unit body text c head _ ih =>
    rw [List.append_assoc, decodeFrom_unit index (body ++ more) head, ih, Utf8.size_append,
      ← Nat.add_assoc, ← comp_map]
    rfl

theorem decodeFrom_of_spells (index : Nat) (h : Spells body text) :
    decodeFrom index body = .ok text := by
  have happend := decodeFrom_append index [] h
  rw [List.append_nil] at happend
  rw [happend, decodeFrom]
  exact congrArg Except.ok (List.append_nil text)

theorem exists_ok_of_map {ε α β : Type} {f : α → β} {x : Except ε α} {b : β}
    (h : f <$> x = .ok b) : ∃ a, x = .ok a ∧ f a = b := by
  cases x with
  | error e => cases h
  | ok a => exact ⟨a, rfl, Except.ok.inj h⟩

/-- What the reader accepts is a sequence of units. The cases are those of the definition. -/
theorem spells_of_decodeFrom (h : decodeFrom index body = .ok text) : Spells body text := by
  fun_induction decodeFrom index body generalizing text with
  | case1 =>
    cases h
    exact .nil
  | case2 index c body hc ih =>
    obtain ⟨rest, hrest, rfl⟩ := exists_ok_of_map h
    exact .cons (.plain hc) (ih hrest)
  | case6 index c hc high hhigh low body hlow ih =>
    obtain rfl : c = '\\' := Decidable.not_not.mp hc
    obtain ⟨rest, hrest, rfl⟩ := exists_ok_of_map h
    exact .cons (.byte (isDigit_of_isHexDigit hhigh) (isDigit_of_isHexDigit hlow)) (ih hrest)
  | case9 index c hc e body hx value hvalue ih =>
    obtain rfl : c = '\\' := Decidable.not_not.mp hc
    obtain ⟨rest, hrest, rfl⟩ := exists_ok_of_map h
    exact .cons (isUnit_of_simple? hvalue) (ih hrest)
  | _ => cases h

theorem decodeFrom_eq_ok_iff (index : Nat) :
    decodeFrom index body = .ok text ↔ Spells body text :=
  ⟨spells_of_decodeFrom, decodeFrom_of_spells index⟩

/-! ## Where the reader stops -/

/-- A refusal behind a unit is one of the whole body. -/
theorem refusal_cons (head : IsUnit unit c)
    (h : ∃ front back text, body = front ++ back ∧ Spells front text ∧
      invalid.index = index + Utf8.size unit + Utf8.size front ∧ invalid.text <+: back) :
    ∃ front back text, unit ++ body = front ++ back ∧ Spells front text ∧
      invalid.index = index + Utf8.size front ∧ invalid.text <+: back := by
  obtain ⟨front, back, text, rfl, hfront, hindex, htext⟩ := h
  refine ⟨unit ++ front, back, c :: text, (List.append_assoc ..).symm, .cons head hfront, ?_, htext⟩
  rw [hindex, Utf8.size_append, Nat.add_assoc]

/-- The reader stops behind a sequence of units, at a beginning of what is left. The cases are those
of the definition. -/
theorem exists_refusal (h : decodeFrom index body = .error invalid) :
    ∃ front back text, body = front ++ back ∧ Spells front text ∧
      invalid.index = index + Utf8.size front ∧ invalid.text <+: back := by
  fun_induction decodeFrom index body with
  | case1 => cases h
  | case2 index c body hc ih =>
    have hsize : Utf8.size [c] = c.utf8Size := rfl
    exact refusal_cons (.plain hc) (hsize ▸ ih (error_of_map h))
  | case6 index c hc high hhigh low body hlow ih =>
    obtain rfl : c = '\\' := Decidable.not_not.mp hc
    exact refusal_cons (.byte (isDigit_of_isHexDigit hhigh) (isDigit_of_isHexDigit hlow))
      (size_byte hhigh hlow ▸ ih (error_of_map h))
  | case9 index c hc e body hx value hvalue ih =>
    obtain rfl : c = '\\' := Decidable.not_not.mp hc
    have hsize : Utf8.size ['\\', e] = 2 := by
      simp only [Utf8.size_cons, utf8Size_of_simple? hvalue]
      rfl
    exact refusal_cons (isUnit_of_simple? hvalue) (hsize ▸ ih (error_of_map h))
  | _ =>
    -- the reader stops at once, and the text holds the characters at which it looked
    cases h
    obtain rfl := Decidable.not_not.mp ‹¬(_ : Char) ≠ '\\'›
    exact ⟨[], _, [], rfl, .nil, rfl, _, rfl⟩

/-- No sequence of units reaches behind the place of a refusal. -/
theorem size_le_of_refusal {front more : List Char}
    (h : decodeFrom index (front ++ more) = .error invalid) (hfront : Spells front text) :
    index + Utf8.size front ≤ invalid.index := by
  rw [decodeFrom_append index more hfront] at h
  obtain ⟨_, _, _, _, _, hindex, _⟩ := exists_refusal (error_of_map h)
  omega

theorem exists_longestSpelled (h : decodeFrom index body = .error invalid) :
    ∃ front back, body = front ++ back ∧ LongestSpelled front body ∧
      invalid.index = index + Utf8.size front ∧ invalid.text <+: back := by
  obtain ⟨front, back, text, rfl, hfront, hindex, htext⟩ := exists_refusal h
  refine ⟨front, back, rfl, ⟨⟨text, hfront⟩, List.prefix_append front back, ?_⟩, hindex, htext⟩
  rintro other hother ⟨value, hvalue⟩
  refine Nat.le_of_not_lt fun hlonger => ?_
  -- a longer beginning in the language extends `front` by at least one byte
  obtain ⟨piece, rfl⟩ := List.prefix_of_prefix_length_le (List.prefix_append front back) hother
    (by omega)
  obtain ⟨more, hmore⟩ := hother
  rw [← hmore] at h
  have hle := size_le_of_refusal h hvalue
  have hpiece := Utf8.length_le_size piece
  rw [List.length_append] at hlonger
  rw [hindex, Utf8.size_append] at hle
  omega

end Reader

/-! ## Bodies in a source -/

theorem map_mapError {ε ε' α β : Type} (f : α → β) (g : ε → ε') (x : Except ε α) :
    f <$> x.mapError g = (f <$> x).mapError g := by
  cases x <;> rfl

/-- A reader that starts further on stops further on. -/
theorem decodeFrom_add (start index : Nat) (body : List Char) :
    decodeFrom (start + index) body =
      (decodeFrom index body).mapError fun invalid => ⟨invalid.text, start + invalid.index⟩ := by
  fun_induction decodeFrom index body with
  | case1 => rfl
  | case2 index c body hc ih =>
    rw [decodeFrom.eq_def]
    dsimp only
    rw [if_pos hc, Nat.add_assoc, ih, map_mapError]
  | case6 index c hc high hhigh low body hlow ih =>
    rw [decodeFrom.eq_def]
    dsimp only
    rw [if_neg hc, if_pos rfl, if_pos hhigh, if_pos hlow, Nat.add_assoc, ih, map_mapError]
  | case9 index c hc e body hx value hvalue ih =>
    rw [decodeFrom.eq_def]
    dsimp only
    rw [if_neg hc, if_neg hx, hvalue]
    dsimp only
    rw [Nat.add_assoc, ih, map_mapError]
  | _ =>
    rw [decodeFrom.eq_def]
    simp only [*]
    rfl

/-- The reader of a body in a source, which counts from the offset of the body. -/
theorem decodeAt_eq (body : String) (offset : Nat) (file : String) :
    decodeAt body offset file =
      String.ofList <$> (decodeFrom offset body.toList).mapError fun invalid =>
        ⟨.invalidEscape (String.ofList invalid.text), Position.ofOffset invalid.index file⟩ := by
  have hadd := decodeFrom_add offset 0 body.toList
  rw [Nat.add_zero] at hadd
  rw [hadd, decodeAt, decode]
  cases decodeFrom 0 body.toList <;> rfl

theorem decodeAt_eq_ok_iff {body text : String} {offset : Nat} {file : String} :
    decodeAt body offset file = .ok text ↔ Spells body.toList text.toList := by
  rw [← decodeFrom_eq_ok_iff offset, decodeAt_eq]
  cases decodeFrom offset body.toList with
  | error invalid => exact ⟨(nomatch ·), (nomatch ·)⟩
  | ok value =>
    constructor
    · intro h
      rw [← Except.ok.inj h, String.toList_ofList]
    · intro h
      rw [Except.ok.inj h]
      exact congrArg Except.ok (String.ofList_toList ..)

/-- A body outside the language is refused behind its longest beginning that is in it. -/
theorem exists_decodeAt_error {body : String} (offset : Nat) (file : String)
    (h : ¬∃ text, Spells body.toList text) : ∃ front back escape,
      body.toList = front ++ back ∧ LongestSpelled front body.toList ∧ escape.toList <+: back ∧
      decodeAt body offset file =
        .error ⟨.invalidEscape escape, Position.ofOffset (offset + Utf8.size front) file⟩ := by
  cases hread : decodeFrom offset body.toList with
  | ok text => exact absurd ⟨text, spells_of_decodeFrom hread⟩ h
  | error invalid =>
    obtain ⟨front, back, hbody, hfront, hindex, htext⟩ := exists_longestSpelled hread
    refine ⟨front, back, String.ofList invalid.text, hbody, hfront, ?_, ?_⟩
    · rwa [String.toList_ofList]
    · rw [decodeAt_eq, hread, ← hindex]
      rfl

/-- Behind a body that was read, reading goes on as at the beginning of what follows. -/
theorem decodeAt_append {body text : String} {offset : Nat} {file : String} (more : String)
    (h : decodeAt body offset file = .ok text) :
    decodeAt (body ++ more) offset file =
      (text ++ ·) <$> decodeAt more (offset + body.utf8ByteSize) file := by
  rw [decodeAt_eq, decodeAt_eq, String.toList_append,
    decodeFrom_append offset more.toList (decodeAt_eq_ok_iff.mp h), Utf8.size_toList]
  cases decodeFrom (offset + body.utf8ByteSize) more.toList with
  | error invalid => rfl
  | ok value =>
    show Except.ok (String.ofList (text.toList ++ value)) = Except.ok (text ++ String.ofList value)
    rw [String.ofList_append, String.ofList_toList]

/-- Reading a body accepts the sequences of units and nothing else: such a body stands for the
characters that its units stand for, and any other body is refused behind its longest beginning that
is a sequence of units, at a beginning of what is left. Behind a body that was read, reading goes on
as at the beginning of what follows. -/
theorem decodeAt_units (body : String) (offset : Nat) (file : String) :
    (∀ text : String, decodeAt body offset file = .ok text ↔ Spells body.toList text.toList) ∧
    ((¬∃ text, Spells body.toList text) → ∃ front back escape position,
      body.toList = front ++ back ∧ LongestSpelled front body.toList ∧ escape.toList <+: back ∧
      position.offset.toNat = (offset + Utf8.size front) % UInt32.size ∧ position.file = file ∧
      decodeAt body offset file = .error ⟨.invalidEscape escape, position⟩) ∧
    ∀ more text, decodeAt body offset file = .ok text →
      decodeAt (body ++ more) offset file =
        (text ++ ·) <$> decodeAt more (offset + body.utf8ByteSize) file := by
  refine ⟨fun text => decodeAt_eq_ok_iff, ?_, fun more text h => decodeAt_append more h⟩
  intro h
  obtain ⟨front, back, escape, hbody, hfront, hescape, hread⟩ := exists_decodeAt_error offset file h
  exact ⟨front, back, escape, _, hbody, hfront, hescape, Position.toNat_offset_ofOffset _ file, rfl,
    hread⟩

/-- A byte whose second digit is missing, behind a character of two bytes, in a body that begins at
the last offset of 32 bits; and the same body behind an escape. -/
theorem decodeAt_units_truncated :
    (¬∃ text, Spells "é\\x4".toList text) ∧
    (∃ front back escape position, "é\\x4".toList = front ++ back ∧
      LongestSpelled front "é\\x4".toList ∧ escape.toList <+: back ∧
      position.offset.toNat = (4294967295 + Utf8.size front) % UInt32.size ∧
      position.file = "shell" ∧
      decodeAt "é\\x4" 4294967295 "shell" = .error ⟨.invalidEscape escape, position⟩) ∧
    decodeAt "\\t" 4294967293 "shell" = .ok "\t" ∧
    decodeAt ("\\t" ++ "é\\x4") 4294967293 "shell" =
      ("\t" ++ ·) <$> decodeAt "é\\x4" (4294967293 + "\\t".utf8ByteSize) "shell" := by
  have hrefused : ¬∃ text, Spells "é\\x4".toList text := by
    rintro ⟨text, htext⟩
    obtain ⟨value, rfl⟩ : ∃ value : String, value.toList = text :=
      ⟨String.ofList text, String.toList_ofList ..⟩
    cases ((decodeAt_units "é\\x4" 0 "shell").1 value).mpr htext
  have htab : decodeAt "\\t" 4294967293 "shell" = .ok "\t" := rfl
  exact ⟨hrefused, (decodeAt_units "é\\x4" 4294967295 "shell").2.1 hrefused, htab,
    (decodeAt_units "\\t" 4294967293 "shell").2.2 "é\\x4" "\t" htab⟩

end SurfaceGrammar.Escape

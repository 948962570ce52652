import Mathlib.Algebra.Group.Nat.Defs
import SurfaceGrammar.Number.Decimal

/-!
# Reading what was written

A finite number is written with digits from which it is read back, with its sign and to the last
bit.

* `Binary64.nearest_mul_right`: the nearest magnitude depends on the value of a fraction only.
* `Decimal.nearest_units`: a finite magnitude is the one nearest to its own value.
* `Decimal.nearest_shortest`: the shortest decimal reads back.
* `Decimal.Unsigned`: the texts of numbers without a sign.
* `Decimal.read?_write`: a finite number is read back.
-/

namespace SurfaceGrammar

/-! ## Rounding -/

namespace Binary64

theorem roundEven_mul_right (n d : Nat) {k : Nat} (hk : 0 < k) :
    roundEven (n * k) (d * k) = roundEven n d := by
  have hmod : 2 * (n * k % (d * k)) = 2 * (n % d) * k := by
    rw [Nat.mul_mod_mul_right, Nat.mul_assoc]
  simp only [roundEven, Nat.mul_div_mul_right _ _ hk, hmod, Nat.mul_lt_mul_right hk]

theorem roundEven_mul_self (q : Nat) {d : Nat} (hd : 0 < d) : roundEven (q * d) d = q := by
  simp [roundEven, Nat.mul_div_cancel _ hd, hd]

/-- The nearest magnitude depends on the value of a fraction only. -/
theorem nearest_mul_right (n d : Nat) {k : Nat} (hk : 0 < k) :
    nearest (n * k) (d * k) = nearest n d := by
  have hscaled : n * k * 2 ^ 1074 = n * 2 ^ 1074 * k := Nat.mul_right_comm _ _ _
  have hdenominator : ∀ shift, d * k * 2 ^ shift = d * 2 ^ shift * k :=
    fun shift => Nat.mul_right_comm _ _ _
  unfold nearest
  simp only [Nat.pow_eq, hscaled, hdenominator, Nat.mul_div_mul_right _ _ hk,
    roundEven_mul_right _ _ hk]

theorem fractions_eq : fractions = 2 ^ 52 := rfl

/-- The digits of a magnitude in front of its exponent. -/
def significand (m : Nat) : Nat :=
  if m / fractions = 0 then m % fractions else fractions + m % fractions

theorem multiple_eq (m : Nat) : multiple m = significand m * 2 ^ (m / fractions - 1) := by
  by_cases h : m / fractions = 0 <;> simp [multiple, significand, h, Nat.pow_eq]

theorem add_significand (m : Nat) : (m / fractions - 1) * fractions + significand m = m := by
  have hsplit := Nat.div_add_mod' m fractions
  unfold significand
  cases h : m / fractions with
  | zero =>
    rw [h] at hsplit
    simpa using hsplit
  | succ e =>
    rw [h, Nat.succ_mul] at hsplit
    rw [if_neg (Nat.succ_ne_zero e), Nat.add_sub_cancel]
    omega

/-- The shift by which a multiple is rounded is that of the magnitude. -/
theorem log2_multiple (m : Nat) : Nat.log2 (multiple m) - 52 = m / fractions - 1 := by
  have hlt : m % fractions < fractions := Nat.mod_lt _ (by decide)
  rw [multiple_eq]
  by_cases h : m / fractions = 0
  · rw [significand, if_pos h, h, Nat.pow_zero, Nat.mul_one]
    by_cases hzero : m % fractions = 0
    · simp [hzero]
    · have := (Nat.log2_lt hzero).mpr (fractions_eq ▸ hlt)
      omega
  · rw [significand, if_neg h]
    have hne : (fractions + m % fractions) * 2 ^ (m / fractions - 1) ≠ 0 :=
      Nat.ne_of_gt (Nat.mul_pos (Nat.add_pos_left (by decide) _) (Nat.two_pow_pos _))
    have hlog : Nat.log2 ((fractions + m % fractions) * 2 ^ (m / fractions - 1)) =
        52 + (m / fractions - 1) := by
      rw [Nat.log2_eq_iff hne]
      constructor
      · rw [Nat.pow_add, ← fractions_eq]
        exact Nat.mul_le_mul_right _ (Nat.le_add_right _ _)
      · rw [Nat.add_right_comm, Nat.pow_add]
        refine Nat.mul_lt_mul_of_pos_right ?_ (Nat.two_pow_pos _)
        rw [Nat.pow_succ, ← fractions_eq]
        omega
    omega

end Binary64

namespace Decimal

open Binary64

theorem ten_pow_pos (n : Nat) : 0 < 10 ^ n := Nat.pow_pos (by decide)

theorem one_eq : one = 10 ^ 1074 := by
  unfold one
  generalize 1074 = n
  exact Nat.pow_eq

theorem five_pow_mul_two_pow (n : Nat) : 5 ^ n * 2 ^ n = 10 ^ n := (Nat.mul_pow 5 2 n).symm

theorem one_pos : 0 < one := by
  rw [one_eq]
  generalize 1074 = n
  exact ten_pow_pos n

theorem units_mul (m : Nat) : units m * 2 ^ 1074 = multiple m * one := by
  unfold units one
  generalize 1074 = n
  rw [Nat.pow_eq, Nat.pow_eq, Nat.mul_assoc, five_pow_mul_two_pow]

/-! ## The shortest decimal -/

/-- A finite magnitude is the one nearest to its own value. -/
theorem nearest_units {m : Nat} (hm : m < infinity) : nearest (units m) one = m := by
  have hround : roundEven (multiple m * one) (one * 2 ^ (m / fractions - 1)) = significand m := by
    rw [multiple_eq, Nat.mul_assoc, Nat.mul_comm (2 ^ (m / fractions - 1)) one]
    exact roundEven_mul_self _ (Nat.mul_pos one_pos (Nat.two_pow_pos _))
  unfold nearest
  simp only [Nat.pow_eq, units_mul, Nat.mul_div_cancel _ one_pos, log2_multiple, hround,
    add_significand]
  exact Nat.min_eq_right (Nat.le_of_lt hm)

theorem nearest_of_nearby? {m step count : Nat} (h : nearby? m step = some count) :
    nearest count one = m := by
  unfold nearby? readsBack at h
  dsimp only at h
  split at h
  · next hlow =>
    cases h
    exact of_decide_eq_true (Bool.and_eq_true_iff.mp hlow).1
  · split at h
    · next hhigh =>
      cases h
      exact of_decide_eq_true hhigh
    · cases h

/-- The shortest decimal of a finite magnitude reads back. -/
theorem nearest_shortest {m : Nat} (hm : m < infinity) : nearest (shortest m) one = m := by
  simp only [shortest]
  cases hfind : (List.range 17).findSome? fun digits =>
      nearby? m (10 ^ ((Nat.toDigits 10 (units m)).length - (digits + 1))) with
  | none => exact nearest_units hm
  | some count =>
    obtain ⟨digits, -, hcount⟩ := List.exists_of_findSome?_eq_some hfind
    exact nearest_of_nearby? hcount

/-! ## Digits -/

/-- The texts of numbers without a sign. -/
inductive Unsigned : List Char → Prop
  | whole {digits : List Char} (ne : digits ≠ []) (all : ∀ c ∈ digits, c.isDigit = true) :
      Unsigned digits
  | fraction {digits fraction : List Char} (ne : digits ≠ [])
      (all : ∀ c ∈ digits, c.isDigit = true) (fractionNe : fraction ≠ [])
      (fractionAll : ∀ c ∈ fraction, c.isDigit = true) : Unsigned (digits ++ '.' :: fraction)

theorem ofDigits_toDigits (n : Nat) : ofDigits (Nat.toDigits 10 n) = n :=
  Nat.ofDigitChars_ten_toDigits

theorem ofDigits_append (first second : List Char) :
    ofDigits (first ++ second) = ofDigits first * 10 ^ second.length + ofDigits second := by
  change Nat.ofDigitChars 10 (first ++ second) 0 =
    Nat.ofDigitChars 10 first 0 * 10 ^ second.length + Nat.ofDigitChars 10 second 0
  rw [Nat.ofDigitChars_append, Nat.ofDigitChars_eq_ofDigitChars_zero (l := second), Nat.mul_comm]

theorem ofDigits_replicate_zero (k : Nat) : ofDigits (List.replicate k '0') = 0 := by
  change Nat.ofDigitChars 10 (List.replicate k '0') 0 = 0
  simp

/-- Only zeros are missing from the text without the zeros at its end. -/
theorem exists_trimZeros (text : List Char) :
    ∃ k, text = trimZeros text ++ List.replicate k '0' := by
  refine ⟨(text.reverse.takeWhile (· = '0')).length, ?_⟩
  have hzeros : text.reverse.takeWhile (· = '0') =
      List.replicate (text.reverse.takeWhile (· = '0')).length '0' := by
    refine List.eq_replicate_iff.mpr ⟨rfl, fun c hc => ?_⟩
    simpa using List.all_eq_true.mp List.all_takeWhile c hc
  have hsplit : text.reverse.takeWhile (· = '0') ++ text.reverse.dropWhile (· = '0') =
      text.reverse := List.takeWhile_append_dropWhile
  have hreverse := congrArg List.reverse hsplit
  rw [List.reverse_reverse, List.reverse_append] at hreverse
  rw [trimZeros, ← List.reverse_replicate, ← hzeros, hreverse]

/-- The digits of a fraction of 1, filled up with zeros. -/
theorem fractionDigits_spec {count : Nat} (h : count < one) :
    (∀ c ∈ fractionDigits count, c.isDigit = true) ∧
      ∃ k, one = 10 ^ (fractionDigits count).length * 10 ^ k ∧
        count = ofDigits (fractionDigits count) * 10 ^ k := by
  rw [one_eq] at h
  have hlength : (Nat.toDigits 10 count).length ≤ 1074 := by
    have hpos : 0 < 1074 := by decide
    generalize 1074 = n at h hpos ⊢
    exact (Nat.length_toDigits_le_iff (by decide) hpos).mpr h
  obtain ⟨k, hk⟩ := exists_trimZeros
    (List.replicate (1074 - (Nat.toDigits 10 count).length) '0' ++ Nat.toDigits 10 count)
  change _ = fractionDigits count ++ List.replicate k '0' at hk
  refine ⟨fun c hc => ?_, k, ?_, ?_⟩
  · have hmem : c ∈ List.replicate (1074 - (Nat.toDigits 10 count).length) '0' ++
        Nat.toDigits 10 count := by
      rw [hk]
      exact List.mem_append_left _ hc
    obtain hzero | hdigit := List.mem_append.mp hmem
    · rw [List.eq_of_mem_replicate hzero]
      decide
    · exact Nat.isDigit_of_mem_toDigits (by decide) (by decide) hdigit
  · have hlengths := congrArg List.length hk
    simp only [List.length_append, List.length_replicate] at hlengths
    rw [one_eq, ← Nat.pow_add, ← hlengths, Nat.sub_add_cancel hlength]
  · have hvalue := congrArg ofDigits hk
    rw [ofDigits_append, ofDigits_append, ofDigits_replicate_zero, ofDigits_replicate_zero,
      ofDigits_toDigits, List.length_replicate] at hvalue
    omega

theorem isDigit_toDigits (n : Nat) : ∀ c ∈ Nat.toDigits 10 n, c.isDigit = true :=
  fun _ hc => Nat.isDigit_of_mem_toDigits (by decide) (by decide) hc

/-- A number of units is written without a sign. -/
theorem unsigned_writeUnits (count : Nat) : Unsigned (writeUnits count) := by
  obtain ⟨hdigits, -⟩ := fractionDigits_spec (Nat.mod_lt count one_pos)
  unfold writeUnits
  dsimp only
  split
  · exact .whole Nat.toDigits_ne_nil (isDigit_toDigits _)
  · next fraction hne =>
    exact .fraction Nat.toDigits_ne_nil (isDigit_toDigits _) hne hdigits

/-! ## Reading -/

theorem takeWhile_isDigit {digits : List Char} (h : ∀ c ∈ digits, c.isDigit = true)
    (tail : List Char) : (digits ++ '.' :: tail).takeWhile Char.isDigit = digits := by
  rw [List.takeWhile_append_of_pos h, List.takeWhile_cons_of_neg (by decide), List.append_nil]

theorem readUnsigned?_whole {digits : List Char} (hne : digits ≠ [])
    (h : ∀ c ∈ digits, c.isDigit = true) :
    readUnsigned? digits = some (nearest (ofDigits digits) 1) := by
  have htake : digits.takeWhile Char.isDigit = digits := by
    have happend : (digits ++ []).takeWhile Char.isDigit =
        digits ++ ([] : List Char).takeWhile Char.isDigit := List.takeWhile_append_of_pos h
    simpa using happend
  unfold readUnsigned?
  simp [htake, hne]

theorem readUnsigned?_fraction {digits fraction : List Char} (hne : digits ≠ [])
    (h : ∀ c ∈ digits, c.isDigit = true) (hfraction : fraction ≠ [])
    (hall : ∀ c ∈ fraction, c.isDigit = true) :
    readUnsigned? (digits ++ '.' :: fraction) =
      some (nearest (ofDigits (digits ++ fraction)) (10 ^ fraction.length)) := by
  unfold readUnsigned?
  simp [takeWhile_isDigit h, hne, hfraction, List.all_eq_true.mpr hall]

/-- A number of units is read back. -/
theorem readUnsigned?_writeUnits (count : Nat) :
    readUnsigned? (writeUnits count) = some (nearest count one) := by
  have hlt := Nat.mod_lt count one_pos
  have hsplit := Nat.div_add_mod' count one
  obtain ⟨hdigits, k, hone, hvalue⟩ := fractionDigits_spec hlt
  unfold writeUnits
  dsimp only
  split
  · next hnil =>
    rw [hnil] at hvalue
    have hzero : count % one = 0 := by simpa [ofDigits] using hvalue
    rw [readUnsigned?_whole Nat.toDigits_ne_nil (isDigit_toDigits _), ofDigits_toDigits,
      ← nearest_mul_right _ 1 one_pos, Nat.one_mul]
    rw [hzero, Nat.add_zero] at hsplit
    rw [hsplit]
  · next fraction hne =>
    rw [readUnsigned?_fraction Nat.toDigits_ne_nil (isDigit_toDigits _) hne hdigits,
      ← nearest_mul_right _ _ (ten_pow_pos k), ofDigits_append, ofDigits_toDigits, Nat.add_mul,
      ← hvalue, Nat.mul_assoc, ← hone, hsplit]

theorem isDigit_of_mem_zero : ∀ c ∈ ['0'], c.isDigit = true := by
  intro c hc
  rw [List.mem_singleton.mp hc]
  rfl

/-- A finite magnitude is written without a sign. -/
theorem unsigned_writeMagnitude {m : Nat} (hm : m < infinity) : Unsigned (writeMagnitude m) := by
  unfold writeMagnitude
  by_cases hzero : m = 0
  · rw [if_pos hzero]
    exact .whole (List.cons_ne_nil _ _) isDigit_of_mem_zero
  · rw [if_neg hzero, if_pos hm]
    exact unsigned_writeUnits _

/-- A finite magnitude is read back. -/
theorem readUnsigned?_writeMagnitude {m : Nat} (hm : m < infinity) :
    readUnsigned? (writeMagnitude m) = some m := by
  unfold writeMagnitude
  by_cases hzero : m = 0
  · rw [if_pos hzero, readUnsigned?_whole (List.cons_ne_nil _ _) isDigit_of_mem_zero, hzero]
    simp [nearest, ofDigits, roundEven, -Nat.reducePow]
  · rw [if_neg hzero, if_pos hm, readUnsigned?_writeUnits, nearest_shortest hm]

theorem Unsigned.head? {text : List Char} (h : Unsigned text) :
    ∃ c rest, text = c :: rest ∧ c.isDigit = true := by
  cases h with
  | whole hne hall =>
    obtain ⟨c, rest, rfl⟩ := List.exists_cons_of_ne_nil hne
    exact ⟨c, rest, rfl, hall c List.mem_cons_self⟩
  | fraction hne hall _ _ =>
    obtain ⟨c, rest, rfl⟩ := List.exists_cons_of_ne_nil hne
    exact ⟨c, _, rfl, hall c List.mem_cons_self⟩

theorem read?_of_unsigned {text : List Char} (h : Unsigned text) :
    read? text = (readUnsigned? text).map (ofMagnitude false) := by
  obtain ⟨c, rest, rfl, hc⟩ := h.head?
  unfold read?
  split
  · next hcons =>
    cases hcons
    exact absurd hc (by decide)
  · rfl

end Decimal

namespace Binary64

variable {x : Binary64}

theorem isNaN_of_isFinite (h : x.isFinite = true) : x.isNaN = false := by
  simp only [isFinite, isNaN, decide_eq_true_eq, decide_eq_false_iff_not] at h ⊢
  omega

theorem magnitude_lt (h : x.isFinite = true) : x.magnitude < infinity :=
  of_decide_eq_true h

/-- A number is its sign with its magnitude. -/
theorem ofMagnitude_self (x : Binary64) : ofMagnitude x.isNegative x.magnitude = x := by
  obtain ⟨bits⟩ := x
  have hlt := bits.toNat_lt
  simp only [ofMagnitude, isNegative, magnitude, Binary64.mk.injEq, signBit, Nat.pow_eq]
  refine UInt64.toNat_inj.mp ?_
  by_cases hsign : 2 ^ 63 ≤ bits.toNat
  · simp only [hsign, decide_true, if_true, UInt64.toNat_ofNat']
    omega
  · simp only [hsign, decide_false, Bool.false_eq_true, if_false, UInt64.toNat_ofNat']
    omega

end Binary64

namespace Decimal

open Binary64

/-- A finite number is written with an optional minus before a number without a sign. -/
theorem write_of_isFinite {x : Binary64} (h : x.isFinite = true) :
    write x = if x.isNegative then '-' :: writeMagnitude x.magnitude
      else writeMagnitude x.magnitude := by
  simp only [write, isNaN_of_isFinite h, Bool.false_eq_true, if_false]

/-- A finite number is read back, with its sign and to the last bit. -/
theorem read?_write {x : Binary64} (h : x.isFinite = true) : read? (write x) = some x := by
  have hread := readUnsigned?_writeMagnitude (magnitude_lt h)
  have hself := ofMagnitude_self x
  rw [write_of_isFinite h]
  cases hsign : x.isNegative with
  | true =>
    rw [hsign] at hself
    simp [read?, hread, hself]
  | false =>
    rw [hsign] at hself
    rw [if_neg (by decide), read?_of_unsigned (unsigned_writeMagnitude (magnitude_lt h)), hread]
    simp [hself]

end Decimal

end SurfaceGrammar

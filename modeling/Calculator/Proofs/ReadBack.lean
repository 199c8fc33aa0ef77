import Calculator.Decimal.Layout
import Calculator.Proofs.NumeralOfLiteral
import Calculator.Proofs.ShortestDecimal

/-! Written floats are read back. In every layout a finite float that is not negative is written as
a number literal, and the literal is read as that float. -/

set_option autoImplicit false

namespace Calculator

open Numeral

section Value

theorem digits_ofNat (n : Nat) : Digits (Text.ofNat n) :=
  ⟨Nat.toDigits_ne_nil, fun _ hc => Nat.isDigit_of_mem_toDigits (by omega) (by omega) hc⟩

theorem digits_zero : Digits ['0'] := ⟨List.cons_ne_nil _ _, List.forall_mem_singleton.mpr rfl⟩

theorem isDigit_of_mem_zeros {k : Nat} : ∀ c ∈ List.replicate k '0', Text.isDigit c := by
  intro c hc
  rw [List.eq_of_mem_replicate hc]
  rfl

theorem Digits.append_left {as bs : Text} (ha : ∀ c ∈ as, Text.isDigit c) (hb : Digits bs) :
    Digits (as ++ bs) :=
  ⟨List.append_ne_nil_of_right_ne_nil _ hb.1, List.forall_mem_append.mpr ⟨ha, hb.2⟩⟩

theorem Digits.append_right {as bs : Text} (ha : Digits as) (hb : ∀ c ∈ bs, Text.isDigit c) :
    Digits (as ++ bs) :=
  ⟨List.append_ne_nil_of_left_ne_nil ha.1 _, List.forall_mem_append.mpr ⟨ha.2, hb⟩⟩

theorem value_eq_ofDigitChars (ds : Text) : value ds = Nat.ofDigitChars 10 ds 0 := rfl

theorem value_ofNat (n : Nat) : value (Text.ofNat n) = n := Nat.ofDigitChars_ten_toDigits

theorem value_append (as bs : Text) : value (as ++ bs) = 10 ^ bs.length * value as + value bs := by
  rw [value_eq_ofDigitChars, Nat.ofDigitChars_append, Nat.ofDigitChars_eq_ofDigitChars_zero]
  rfl

theorem value_zeros (k : Nat) : value (List.replicate k '0') = 0 := by
  rw [value_eq_ofDigitChars, Nat.ofDigitChars_replicate_zero, Nat.mul_zero]

theorem value_zeroPad (width : Nat) (ds : Text) : value (Text.zeroPad width ds) = value ds := by
  rw [Text.zeroPad, value_append, value_zeros, Nat.mul_zero, Nat.zero_add]

end Value

section Parts

def writtenExponent (width : Nat) (magnitude : Int) : Text :=
  'e' :: (if magnitude < 0 then '-' else '+') ::
    Text.zeroPad width (Text.ofNat magnitude.natAbs)

theorem digits_zeroPad (width n : Nat) : Digits (Text.zeroPad width (Text.ofNat n)) :=
  (digits_ofNat n).append_left isDigit_of_mem_zeros

theorem exponent?_writtenExponent (width : Nat) (magnitude : Int) :
    exponent? (writtenExponent width magnitude) = some magnitude := by
  have hpad := digits_zeroPad width magnitude.natAbs
  unfold writtenExponent
  by_cases hneg : magnitude < 0
  · rw [if_pos hneg, exponent?_mark rfl hpad rfl, value_zeroPad, value_ofNat, if_pos rfl]
    congr 1
    omega
  · rw [if_neg hneg, exponent?_mark rfl hpad rfl, value_zeroPad, value_ofNat,
      if_neg Bool.false_ne_true]
    congr 1
    omega

theorem exponentPart_writtenExponent (width : Nat) (magnitude : Int) :
    ExponentPart (writtenExponent width magnitude) := by
  refine Or.inr ⟨'e', [if magnitude < 0 then '-' else '+'], _, rfl, Or.inr ⟨_, ?_, rfl⟩,
    digits_zeroPad width magnitude.natAbs, rfl⟩
  split <;> rfl

/-- The point is left out with the digits behind it. -/
theorem exists_fractionPart {ds : Text} (hds : ∀ c ∈ ds, Text.isDigit c) :
    ∃ f, (if ds.isEmpty then [] else '.' :: ds) = f ∧ FractionPart f ∧ f.drop 1 = ds := by
  cases ds with
  | nil => exact ⟨[], rfl, Or.inl rfl, rfl⟩
  | cons d ds => exact ⟨_, rfl, Or.inr ⟨_, ⟨List.cons_ne_nil d ds, hds⟩, rfl⟩, rfl⟩

end Parts

def Denotes (w : Text) (q : ℚ) : Prop :=
  NumberLiteral w ∧ ∃ d, decimal? w = some d ∧ d.value = q

section Denotes
variable {ds : Text} (hd : Digits ds)
include hd

theorem denotes_fraction {whole : Text} {q : ℚ} (hw : Digits whole)
    (hq : (value (whole ++ ds) : ℚ) * 10 ^ (-(ds.length : ℤ)) = q) :
    Denotes (whole ++ '.' :: ds) q := by
  have hf : FractionPart ('.' :: ds) := Or.inr ⟨ds, hd, rfl⟩
  have he : ExponentPart [] := Or.inl rfl
  refine ⟨⟨whole, '.' :: ds, [], hw, hf, he, by simp⟩, ?_⟩
  have hdecimal := decimal?_append hw hf he
  rw [List.append_nil] at hdecimal
  refine ⟨_, hdecimal, ?_⟩
  rw [← hq, Decimal.value]
  simp

/-- Below one: zeros stand between the point and the digits. -/
theorem denotes_small (k : Nat) :
    Denotes (['0'] ++ '.' :: (List.replicate k '0' ++ ds))
      (value ds * 10 ^ (-(k : ℤ) - ds.length)) := by
  apply denotes_fraction (hd.append_left isDigit_of_mem_zeros) digits_zero
  have hvalue : value (['0'] ++ (List.replicate k '0' ++ ds)) = value ds := by
    rw [value_append, value_append, value_zeros]
    change 10 ^ _ * 0 + (10 ^ _ * 0 + value ds) = value ds
    omega
  rw [hvalue, List.length_append, List.length_replicate, Nat.cast_add, neg_add']

/-- A whole number: zeros stand between the digits and the point, and one behind it. -/
theorem denotes_whole (k : Nat) :
    Denotes (ds ++ List.replicate k '0' ++ '.' :: ['0']) (value ds * 10 ^ k) := by
  apply denotes_fraction digits_zero (hd.append_right isDigit_of_mem_zeros)
  have hvalue : value (ds ++ List.replicate k '0' ++ ['0']) = 10 * (10 ^ k * value ds) := by
    rw [value_append, value_append, value_zeros, List.length_replicate]
    change 10 ^ 1 * (10 ^ k * value ds + 0) + 0 = _
    omega
  rw [hvalue]
  push_cast
  norm_num
  ring

theorem denotes_inside {k : Nat} (hk : 0 < k) (hlt : k < ds.length) :
    Denotes (ds.take k ++ '.' :: ds.drop k) (value ds * 10 ^ ((k : ℤ) - ds.length)) := by
  have hfront : Digits (ds.take k) := by
    refine ⟨?_, fun c hc => hd.2 c (List.mem_of_mem_take hc)⟩
    intro h
    have hlength := congrArg List.length h
    rw [List.length_take, List.length_nil] at hlength
    omega
  have hbehind : Digits (ds.drop k) := by
    refine ⟨?_, fun c hc => hd.2 c (List.mem_of_mem_drop hc)⟩
    intro h
    have hlength := List.drop_eq_nil_iff.mp h
    omega
  apply denotes_fraction hbehind hfront
  rw [List.take_append_drop, List.length_drop, Nat.cast_sub (Nat.le_of_lt hlt), neg_sub]

theorem denotes_pointed (whole : Int) :
    Denotes (Layout.pointed ds whole) (value ds * 10 ^ (whole - ds.length)) := by
  unfold Layout.pointed
  split
  · rename_i hwhole
    obtain ⟨k, rfl⟩ := Int.exists_eq_neg_ofNat hwhole
    rw [neg_neg]
    exact denotes_small hd k
  · rename_i hwhole
    obtain ⟨k, rfl⟩ := Int.eq_ofNat_of_zero_le (by omega : 0 ≤ whole)
    dsimp only [Int.toNat_natCast]
    by_cases hk : ds.length ≤ k
    · have hsub : (k : ℤ) - ds.length = (k - ds.length : Nat) := by omega
      rw [List.take_of_length_le hk, List.drop_of_length_le hk, hsub, zpow_natCast]
      exact denotes_whole hd (k - ds.length)
    · have hbehind : (ds.drop k).isEmpty = false := by
        rw [List.isEmpty_eq_false_iff, ne_eq, List.drop_eq_nil_iff]
        exact hk
      have hnone : k - ds.length = 0 := by omega
      rw [hnone, hbehind, List.replicate_zero, List.append_nil]
      exact denotes_inside hd (by omega) (by omega)

theorem denotes_scientific (l : Layout) (magnitude : Int) :
    Denotes (l.scientific ds magnitude) (value ds * 10 ^ (magnitude + 1 - ds.length)) := by
  obtain ⟨hne, hdigit⟩ := hd
  cases ds with
  | nil => exact absurd rfl hne
  | cons c ds =>
    obtain ⟨hc, hds⟩ := List.forall_mem_cons.mp hdigit
    have hw : Digits [c] := ⟨List.cons_ne_nil c [], List.forall_mem_singleton.mpr hc⟩
    have hpart := exponentPart_writtenExponent l.exponentWidth magnitude
    obtain ⟨f, hf, hfpart, hdrop⟩ := exists_fractionPart hds
    have hdecimal := decimal?_append hw hfpart hpart
    rw [exponent?_writtenExponent, hdrop] at hdecimal
    change Denotes ([c] ++ (if ds.isEmpty then [] else '.' :: ds) ++ writtenExponent _ _) _
    rw [hf]
    refine ⟨⟨_, _, _, hw, hfpart, hpart, rfl⟩, _, hdecimal, ?_⟩
    rw [Decimal.value, List.length_cons]
    push_cast
    congr 2
    ring

end Denotes

theorem denotes_writeDecimal (l : Layout) (d : Decimal) : Denotes (l.writeDecimal d) d.value := by
  have hd := digits_ofNat d.digits
  have hmagnitude : d.magnitude + 1 - (Text.ofNat d.digits).length = d.exponent := by
    rw [Decimal.magnitude, Decimal.digitCount]
    ring
  have hvalue : d.value = (value (Text.ofNat d.digits) : ℚ) *
      10 ^ (d.magnitude + 1 - (Text.ofNat d.digits).length) := by
    rw [hmagnitude, value_ofNat, Decimal.value]
  rw [hvalue]
  unfold Layout.writeDecimal
  dsimp only
  split
  · exact denotes_pointed hd _
  · exact denotes_scientific hd l _

theorem Denotes.read? {w : Text} {d : Decimal} (h : Denotes w d.value) :
    Numeral.read? w = some d.toFloat := by
  obtain ⟨hliteral, c, hc, hvalue⟩ := h
  rw [read?_of_literal hliteral, hc, Option.map_some, Decimal.toFloat, Decimal.toFloat,
    Decimal.toBits_eq_of_value hvalue]

/-- A finite float that is not negative is written as a literal that is read as the same float. -/
theorem write_ofBits (l : Layout) {n : Nat} (h : n < infinityBits) :
    NumberLiteral (l.write (Float.ofBits n.toUInt64)) ∧
      read? (l.write (Float.ofBits n.toUInt64)) = some (Float.ofBits n.toUInt64) := by
  obtain ⟨m, e, hparts, hzero, hbits⟩ := Decimal.exists_shortest h
  simp only [Layout.write, hparts, Layout.signed, if_neg Bool.false_ne_true]
  by_cases hm : m = 0
  · obtain rfl := hzero hm
    rw [if_pos hm]
    have hdenotes : Denotes "0.0".toList (⟨0, 0⟩ : Decimal).value := by
      refine denotes_fraction digits_zero digits_zero ?_
      simp [Decimal.value, value]
    exact ⟨hdenotes.1, hdenotes.read?⟩
  · rw [if_neg hm]
    have hdenotes := denotes_writeDecimal l (Decimal.shortest m e)
    refine ⟨hdenotes.1, ?_⟩
    rw [hdenotes.read?, Decimal.toFloat, hbits hm]

/-- What a literal is read as: some word up to infinity. -/
theorem exists_bits_of_read? {w : Text} {x : Float} (hw : NumberLiteral w) (hx : read? w = some x) :
    ∃ n ≤ infinityBits, x = Float.ofBits n.toUInt64 := by
  rw [read?_of_literal hw] at hx
  obtain ⟨d, -, rfl⟩ := Option.map_eq_some_iff.mp hx
  exact ⟨d.toBits, d.toBits_le, rfl⟩

/-- A finite number of a source is read back from what is written for it. -/
theorem write_of_read? (l : Layout) {w : Text} {x : Float} (hw : NumberLiteral w)
    (hx : read? w = some x) (hfinite : x.isFinite) :
    NumberLiteral (l.write x) ∧ read? (l.write x) = some x := by
  obtain ⟨n, hn, rfl⟩ := exists_bits_of_read? hw hx
  exact write_ofBits l (lt_infinityBits_of_isFinite hn hfinite)

end Calculator

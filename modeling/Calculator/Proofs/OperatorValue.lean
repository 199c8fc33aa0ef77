import Calculator.Operator
import Calculator.Proofs.StoredBits

/-! The values of the nine operators. Division keeps zero divisors away from the checked quotient
and answers for them itself. Its answer is what the division of binary floats gives: an infinity
with the sign of both numbers, or no number. So none of the nine operators ever fails. -/

set_option autoImplicit false

namespace Calculator

open Float.Model (Format UnpackedFloat)
open Float.Model.UnpackedFloat

/-- The sign of a number, which zeros and infinities have too. -/
def signOf? : UnpackedFloat → Option Sign
  | .notANumber => none
  | .infinity s => some s
  | .zero s => some s
  | .finite s _ _ _ => some s

theorem signOf?_unpack {b : BitVec Format.binary64.numBits} {s : Sign}
    (h : signOf? (unpack .binary64 b) = some s) : s = Sign.ofBitVec (unpackSign b) := by
  unfold unpack at h
  dsimp only at h
  split at h
  · split at h
    · exact (Option.some.inj h).symm
    · cases h
  · split at h
    · split at h
      · exact (Option.some.inj h).symm
      · exact (Option.some.inj h).symm
    · exact (Option.some.inj h).symm

/-- The sign is the first bit. -/
theorem sign_eq_negative_iff {x : Float} {s : Sign} (h : signOf? x.toModel.unpack = some s) :
    s = .negative ↔ x.toBits.toNat / 0x8000000000000000 = 1 := by
  have hlt : x.toBits.toNat < 2 ^ 64 := x.toBits.toBitVec.isLt
  have hbit : (@unpackSign .binary64 x.toModel.toBits.toBitVec).toNat =
      x.toBits.toNat / 2 ^ 63 % 2 := toNat_unpackSign _
  have hsign : s = .negative ↔
      (@unpackSign .binary64 x.toModel.toBits.toBitVec).toNat ≠ 0 := by
    rw [signOf?_unpack h, Sign.ofBitVec]
    split
    · rename_i hzero
      rw [hzero]
      simp
    · rename_i hne
      refine iff_of_true rfl ?_
      intro h0
      exact hne (BitVec.eq_of_toNat_eq h0)
  rw [hsign, hbit]
  omega

namespace Operator

variable {x y : Float} {s : Sign}

def signed (size : Float) : Sign → Float
  | .negative => -size.abs
  | .positive => size.abs

theorem copySign_eq (size : Float) (h : signOf? x.toModel.unpack = some s) :
    copySign size x = signed size s := by
  have hnegative := sign_eq_negative_iff h
  rw [copySign]
  cases s with
  | negative => rw [if_pos (beq_iff_eq.mpr (hnegative.mp rfl)), signed]
  | positive =>
    rw [if_neg, signed]
    intro hone
    cases hnegative.mpr (beq_iff_eq.mp hone)

theorem exists_zero_of_beq (h : (y == 0.0) = true) : ∃ s, y.toModel.unpack = .zero s := by
  have hcompare : y.toModel.unpack.compare (.zero .positive) = some .eq := beq_iff_eq.mp h
  cases hy : y.toModel.unpack with
  | zero s => exact ⟨s, rfl⟩
  | notANumber =>
    rw [hy] at hcompare
    cases hcompare
  | infinity s =>
    rw [hy] at hcompare
    cases s <;> cases hcompare
  | finite s m e hm =>
    rw [hy] at hcompare
    cases s <;> cases hcompare

theorem div_eq (x y : Float) : x / y =
    .ofModel (.pack (UnpackedFloat.div .binary64 x.toModel.unpack y.toModel.unpack)) := rfl

theorem signed_infinity_mul (s' s : Sign) : signed infinity s' * signed 1.0 s =
    .ofModel (.pack (UnpackedFloat.div .binary64 (.infinity s') (.zero s))) := by
  cases s' <;> cases s <;> decide +kernel

/-- A zero divisor gives no number for a zero, and for what is no number. -/
theorem div_of_indefinite (hy : (y == 0.0) = true) (hx : (x == 0.0 || x.isNaN) = true) :
    x / y = notANumber := by
  obtain ⟨s, hs⟩ := exists_zero_of_beq hy
  rw [div_eq, hs]
  rcases Bool.or_eq_true_iff.mp hx with hzero | hnan
  · obtain ⟨s', hs'⟩ := exists_zero_of_beq hzero
    rw [hs']
    rfl
  · have hunpack : x.toModel.unpack.isNaN = true := hnan
    cases hx' : x.toModel.unpack with
    | notANumber => rfl
    | zero | infinity | finite =>
      rw [hx'] at hunpack
      cases hunpack

/-- A zero divisor gives any other number an infinity with the sign of both. -/
theorem div_of_zero (hy : (y == 0.0) = true) (hx : (x == 0.0 || x.isNaN) = false) :
    x / y = copySign infinity x * copySign 1.0 y := by
  obtain ⟨hzero, hnan⟩ := Bool.or_eq_false_iff.mp hx
  obtain ⟨s, hs⟩ := exists_zero_of_beq hy
  have hy' := copySign_eq 1.0 (congrArg signOf? hs)
  rw [div_eq, hs]
  cases hx' : x.toModel.unpack with
  | notANumber =>
    have hunpack : x.toModel.unpack.isNaN = false := hnan
    rw [hx'] at hunpack
    cases hunpack
  | zero s' =>
    have hcompare : (x.toModel.unpack.compare (.zero .positive) == some .eq) = false := hzero
    rw [hx'] at hcompare
    cases hcompare
  | infinity s' => rw [copySign_eq infinity (congrArg signOf? hx'), hy', signed_infinity_mul]
  | finite s' m e hm =>
    -- a zero divisor makes no difference between a size and an infinite one
    rw [copySign_eq infinity (congrArg signOf? hx'), hy', signed_infinity_mul]
    rfl

/-- Division never fails, and gives the quotient of binary floats. -/
theorem divide_eq (x y : Float) : divide x y = .ok (x / y) := by
  rw [divide, bne]
  cases hy : y == 0.0 with
  | false => rw [checkedQuotient, hy, Bool.not_false, if_pos rfl, if_neg Bool.false_ne_true]
  | true =>
    rw [Bool.not_true, if_neg Bool.false_ne_true]
    cases hx : x == 0.0 || x.isNaN with
    | true => rw [if_pos rfl, div_of_indefinite hy hx]
    | false => rw [if_neg Bool.false_ne_true, div_of_zero hy hx]

/-- What an operator makes of two numbers. A comparison gives one or zero, and numbers are equal if
they are less than `2 ^ -52` apart. -/
inductive Gives (x y : Float) : Operator → Float → Prop
  | sum : Gives x y .sum (x + y)
  | difference : Gives x y .difference (x - y)
  | product : Gives x y .product (x * y)
  | quotient : Gives x y .quotient (x / y)
  | greater : Gives x y .greater (if y < x then 1.0 else 0.0)
  | greaterEqual : Gives x y .greaterEqual (if y ≤ x then 1.0 else 0.0)
  | less : Gives x y .less (if x < y then 1.0 else 0.0)
  | lessEqual : Gives x y .lessEqual (if x ≤ y then 1.0 else 0.0)
  | equal : Gives x y .equal (if (x - y).abs < 2.220446049250313e-16 then 1.0 else 0.0)

theorem tolerance_eq : tolerance = 2.220446049250313e-16 := by decide +kernel

theorem truth_decide (p : Prop) [Decidable p] : truth (decide p) = if p then 1.0 else 0.0 := by
  simp only [truth, decide_eq_true_eq]

variable {op : Operator} {z : Float}

theorem Gives.value_eq (h : op.Gives x y z) : op.value x y = .ok z := by
  cases h with
  | sum | difference | product => rfl
  | quotient => exact divide_eq x y
  | greater | greaterEqual | less | lessEqual => exact congrArg _ (truth_decide _)
  | equal => rw [value, tolerance_eq, truth_decide]

theorem exists_gives (h : op ∈ known) (x y : Float) : ∃ z, Gives x y op z := by
  cases op with
  | other => simp [known] at h
  | _ => exact ⟨_, by constructor⟩

/-- The nine operators always have a value, so no quotient is refused. -/
theorem value_of_known (h : op ∈ known) (x y : Float) : ∃ z, op.value x y = .ok z := by
  obtain ⟨z, hz⟩ := exists_gives h x y
  exact ⟨z, hz.value_eq⟩

end Operator

end Calculator

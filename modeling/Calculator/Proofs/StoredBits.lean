import Mathlib
import Calculator.Decimal.Rounding

/-! The stored bits of a float. A word that is no infinity and no error is the same after it was
made a float, so the parts of a float are read off the word it was made of. -/

set_option autoImplicit false

namespace Calculator

open Float.Model (Format UnpackedFloat)
open Float.Model.UnpackedFloat

theorem toNat_append_eq {v w : Nat} (x : BitVec v) (y : BitVec w) :
    (x ++ y).toNat = 2 ^ w * x.toNat + y.toNat := by
  rw [BitVec.toNat_append, ← Nat.shiftLeft_add_eq_or_of_lt y.isLt, Nat.shiftLeft_eq, Nat.mul_comm]

section Word
variable (b : BitVec Format.binary64.numBits)

theorem toNat_unpackMantissa : (unpackMantissa b).toNat = b.toNat % 2 ^ 52 := by
  simp [unpackMantissa, BitVec.extractLsb]

theorem toNat_unpackExponent : (unpackExponent b).toNat = b.toNat / 2 ^ 52 % 2 ^ 11 := by
  simp [unpackExponent, BitVec.extractLsb, Nat.shiftRight_eq_div_pow]

theorem toNat_unpackSign : (unpackSign b).toNat = b.toNat / 2 ^ 63 % 2 := by
  simp [unpackSign, BitVec.extractLsb, Nat.shiftRight_eq_div_pow]

theorem toBitVec_ofBitVec (sign : BitVec 1) : (Sign.ofBitVec sign).toBitVec = sign := by
  revert sign
  decide

theorem packComponents_unpack :
    packComponents .binary64 (Sign.ofBitVec (unpackSign b)) (unpackExponent b)
      (unpackMantissa b) = b := by
  apply BitVec.eq_of_toNat_eq
  have hlt : b.toNat < 2 ^ 64 := b.isLt
  rw [packComponents, toNat_append_eq, toNat_append_eq, toBitVec_ofBitVec, toNat_unpackSign,
    toNat_unpackExponent, toNat_unpackMantissa]
  dsimp only
  omega

end Word

section Pack
variable {sign : Sign} {m : Nat} {e : Int} {hpos : 0 < m}

theorem pack_subnormal (hm : m < 2 ^ 52) :
    pack .binary64 (.finite sign m (-1074) hpos) =
      packComponents .binary64 sign 0#11 (BitVec.ofNat 52 m) := by
  have hlog : m.log2 < 52 := (Nat.log2_lt (by omega)).mpr hm
  have hwidth : ¬ m.log2 + 1 = Format.mantissaBits .binary64 := by
    change ¬ m.log2 + 1 = 53
    omega
  simp only [pack]
  rw [if_neg (by decide), if_neg hwidth]

theorem pack_normal (hm : 2 ^ 52 ≤ m) (hm' : m < 2 ^ 53) (he : -1074 ≤ e) (he' : e ≤ 971) :
    pack .binary64 (.finite sign m e hpos) =
      packComponents .binary64 sign (BitVec.ofNat 11 (e + 1075).toNat) (BitVec.ofNat 52 m) := by
  have hlog : m.log2 = 52 := by
    rw [Nat.log2_eq_iff (by omega)]
    exact ⟨hm, hm'⟩
  have hbiased : e + Format.exponentBias .binary64 + (52 : Nat) = e + 1075 := by
    change e + (1023 : Nat) + (52 : Nat) = e + 1075
    omega
  have hwidth : 52 + 1 = Format.mantissaBits .binary64 := rfl
  simp only [pack, hlog, hbiased]
  rw [if_neg (by omega), if_pos hwidth]

end Pack

theorem pack_unpack {b : BitVec Format.binary64.numBits} (h : b.toNat / 2 ^ 52 % 2 ^ 11 ≠ 2047) :
    pack .binary64 (unpack .binary64 b) = b := by
  have hb := packComponents_unpack b
  have hmantissa : (unpackMantissa b).toNat < 2 ^ 52 := (unpackMantissa b).isLt
  have hexponent : (unpackExponent b).toNat < 2047 := by
    rw [toNat_unpackExponent]
    omega
  have hbias : Format.exponentBias .binary64 = 1023 := rfl
  unfold unpack
  dsimp only
  split
  · rename_i he
    rw [he] at hexponent
    exact absurd hexponent (by decide)
  · split
    · rename_i he
      rw [he] at hb
      split
      · rename_i hm
        rw [hm] at hb
        exact hb
      · have hsmall :
            ((unpackExponent b).toNat : Int) - ((1023 : Nat) + (52 : Nat)) + 1 = -1074 := by
          rw [he]
          rfl
        simp only [hbias, hsmall]
        rw [pack_subnormal hmantissa, BitVec.ofNat_toNat, BitVec.setWidth_eq]
        exact hb
    · rename_i he
      have hpos : (unpackExponent b).toNat ≠ 0 := by
        intro h0
        exact he (BitVec.eq_of_toNat_eq h0)
      have hm : (1#1 ++ unpackMantissa b).toNat = 2 ^ 52 + (unpackMantissa b).toNat :=
        toNat_append_eq _ _
      -- the leading one is not stored
      have hcut : BitVec.ofNat 52 (2 ^ 52 + (unpackMantissa b).toNat) = unpackMantissa b := by
        apply BitVec.eq_of_toNat_eq
        rw [BitVec.toNat_ofNat, Nat.add_mod_left, Nat.mod_eq_of_lt hmantissa]
      simp only [hbias]
      rw [pack_normal (by omega) (by omega) (by omega) (by omega), hm, hcut]
      have hback : ((unpackExponent b).toNat - ((1023 : Nat) + (52 : Nat)) + 1075 : Int).toNat =
          (unpackExponent b).toNat := by omega
      rw [hback, BitVec.ofNat_toNat, BitVec.setWidth_eq]
      exact hb

section OfBits
variable {n : Nat}

theorem toBits_ofBits (h : n < infinityBits) :
    (Float.ofBits n.toUInt64).toBits.toNat = n := by
  have hn : n < 2 ^ 64 := by
    unfold infinityBits at h
    omega
  have hword : n.toUInt64.toBitVec.toNat = n := Nat.mod_eq_of_lt hn
  have hfinite : n.toUInt64.toBitVec.toNat / 2 ^ 52 % 2 ^ 11 ≠ 2047 := by
    unfold infinityBits at h
    omega
  change (pack .binary64 (unpack .binary64 n.toUInt64.toBitVec)).toNat = n
  rw [pack_unpack hfinite, hword]

theorem ofFloat_ofBits (h : n < infinityBits) :
    Binary.ofFloat (Float.ofBits n.toUInt64) =
      if n < 0x10000000000000 then .finite false n (-1074)
      else .finite false (0x10000000000000 + n % 0x10000000000000)
        ((n / 0x10000000000000 : Nat) - 1075) := by
  have hlt : n < 0x7ff0000000000000 := h
  have hsign : (n / 0x8000000000000000 == 1) = false := by
    rw [beq_eq_false_iff_ne]
    omega
  have hexponent : n / 0x10000000000000 % 0x800 = n / 0x10000000000000 := by omega
  simp only [Binary.ofFloat, toBits_ofBits h, hsign, hexponent]
  rw [if_neg (by omega)]
  by_cases hsmall : n < 0x10000000000000
  · rw [if_pos (by omega), if_pos hsmall, Nat.mod_eq_of_lt hsmall]
  · rw [if_neg (by omega), if_neg hsmall]

/-- Infinity is the first word beyond the finite ones. -/
theorem lt_infinityBits_of_isFinite (h : n ≤ infinityBits)
    (hfinite : (Float.ofBits n.toUInt64).isFinite) : n < infinityBits := by
  rcases Nat.lt_or_eq_of_le h with hlt | rfl
  · exact hlt
  · have hinfinite : (Float.ofBits infinityBits.toUInt64).isFinite = false := by decide
    rw [hinfinite] at hfinite
    cases hfinite

end OfBits

end Calculator

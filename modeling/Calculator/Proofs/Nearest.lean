import Mathlib
import Calculator.Decimal.Rounding

/-! The float nearest to a quotient. It depends on the value of the quotient alone, and a float is
the nearest one to its own value. -/

set_option autoImplicit false

namespace Calculator

theorem log_eq_of_bounds {b : Nat} {r : ℚ} {k : Int} (hb : 1 < b) (hlo : (b : ℚ) ^ k ≤ r)
    (hhi : r < (b : ℚ) ^ (k + 1)) : Int.log b r = k := by
  have hb' : (0 : ℚ) < b := by exact_mod_cast Nat.zero_lt_of_lt hb
  have hr : 0 < r := lt_of_lt_of_le (zpow_pos hb' k) hlo
  have h1 := (Int.zpow_le_iff_le_log hb hr).mp hlo
  have h2 := (Int.lt_zpow_iff_log_lt hb hr).mp hhi
  omega

/-- Scaling shifts the logarithm. -/
theorem log_mul_zpow {b m : Nat} (hb : 1 < b) (hm : 0 < m) (e : Int) :
    Int.log b ((m : ℚ) * (b : ℚ) ^ e) = Nat.log b m + e := by
  have hb' : (0 : ℚ) < b := by exact_mod_cast Nat.zero_lt_of_lt hb
  have hlo : (b : ℚ) ^ Nat.log b m ≤ m := by exact_mod_cast Nat.pow_log_le_self b (by omega)
  have hhi : (m : ℚ) < (b : ℚ) ^ (Nat.log b m + 1) := by
    exact_mod_cast Nat.lt_pow_succ_log_self hb m
  apply log_eq_of_bounds hb
  · rw [zpow_add₀ hb'.ne', zpow_natCast]
    gcongr
  · rw [add_right_comm, zpow_add₀ hb'.ne']
    gcongr
    exact_mod_cast hhi

section Scaled
variable (base m : Nat) (e : Int)

theorem scaled_den_pos (hb : 0 < base) : 0 < (Ratio.scaled base m e).den := by
  unfold Ratio.scaled
  split
  · exact Nat.one_pos
  · exact Nat.pow_pos hb

theorem scaled_num (hb : 0 < base) :
    ((Ratio.scaled base m e).num : ℚ) = m * (base : ℚ) ^ e * (Ratio.scaled base m e).den := by
  have hb' : (base : ℚ) ≠ 0 := by exact_mod_cast Nat.ne_of_gt hb
  unfold Ratio.scaled
  split
  · rename_i he
    obtain ⟨k, rfl⟩ := Int.eq_ofNat_of_zero_le he
    simp
  · obtain ⟨k, rfl⟩ := Int.exists_eq_neg_ofNat (by omega : e ≤ 0)
    simp [hb']

theorem scaled_div (hb : 0 < base) :
    ((Ratio.scaled base m e).num : ℚ) / (Ratio.scaled base m e).den = m * (base : ℚ) ^ e := by
  have hden : ((Ratio.scaled base m e).den : ℚ) ≠ 0 := by
    exact_mod_cast Nat.ne_of_gt (scaled_den_pos base m e hb)
  rw [scaled_num base m e hb, mul_div_cancel_right₀ _ hden]

end Scaled

section BinaryLog
variable {num den : Nat}

theorem scaled_le_iff (hden : 0 < den) (g : Int) :
    (Ratio.scaled 2 den g).num ≤ num * (Ratio.scaled 2 den g).den ↔
      (2 : ℚ) ^ g ≤ (num : ℚ) / den := by
  have hlimit : (0 : ℚ) < (Ratio.scaled 2 den g).den := by
    exact_mod_cast scaled_den_pos 2 den g (by omega)
  have hden' : (0 : ℚ) < den := by exact_mod_cast hden
  rw [← @Nat.cast_le ℚ, Nat.cast_mul, scaled_num 2 den g (by omega),
    mul_le_mul_iff_left₀ hlimit, le_div_iff₀ hden', mul_comm]
  rfl

/-- A quotient lies within a factor of two of the quotient of the leading bits. -/
theorem two_zpow_le_div (hnum : 0 < num) (hden : 0 < den) :
    (2 : ℚ) ^ ((num.log2 : Int) - den.log2 - 1) ≤ (num : ℚ) / den := by
  have hlow : (2 : ℚ) ^ num.log2 ≤ num := by exact_mod_cast Nat.log2_self_le (by omega)
  have hhigh : (den : ℚ) < 2 ^ (den.log2 + 1) := by exact_mod_cast Nat.lt_log2_self
  rw [le_div_iff₀ (by exact_mod_cast hden)]
  calc (2 : ℚ) ^ ((num.log2 : Int) - den.log2 - 1) * den
      ≤ 2 ^ ((num.log2 : Int) - den.log2 - 1) * 2 ^ (den.log2 + 1) := by gcongr
    _ = 2 ^ num.log2 := by
      rw [← zpow_natCast, ← zpow_natCast, ← zpow_add₀ two_ne_zero]
      congr 1
      omega
    _ ≤ num := hlow

theorem div_lt_two_zpow (hden : 0 < den) :
    (num : ℚ) / den < 2 ^ ((num.log2 : Int) - den.log2 + 1) := by
  have hlow : (2 : ℚ) ^ den.log2 ≤ den := by exact_mod_cast Nat.log2_self_le (by omega)
  have hhigh : (num : ℚ) < 2 ^ (num.log2 + 1) := by exact_mod_cast Nat.lt_log2_self
  rw [div_lt_iff₀ (by exact_mod_cast hden)]
  calc (num : ℚ) < 2 ^ (num.log2 + 1) := hhigh
    _ = 2 ^ ((num.log2 : Int) - den.log2 + 1) * 2 ^ den.log2 := by
      rw [← zpow_natCast, ← zpow_natCast, ← zpow_add₀ two_ne_zero]
      congr 1
      omega
    _ ≤ 2 ^ ((num.log2 : Int) - den.log2 + 1) * den := by gcongr

theorem binaryLog_eq (hnum : 0 < num) (hden : 0 < den) :
    binaryLog num den = Int.log 2 ((num : ℚ) / den) := by
  have hlow := two_zpow_le_div hnum hden
  have hhigh : (num : ℚ) / den < _ := div_lt_two_zpow hden
  unfold binaryLog
  dsimp only
  split
  · rename_i h
    rw [scaled_le_iff hden] at h
    exact (log_eq_of_bounds Nat.one_lt_two (by exact_mod_cast h) (by exact_mod_cast hhigh)).symm
  · rename_i h
    rw [scaled_le_iff hden, not_le] at h
    refine (log_eq_of_bounds Nat.one_lt_two (by exact_mod_cast hlow) ?_).symm
    rw [sub_add_cancel]
    exact_mod_cast h

end BinaryLog

section RoundDiv

theorem roundDiv_mul_left {k : Nat} (hk : 0 < k) (num den : Nat) :
    roundDiv (k * num) (k * den) = roundDiv num den := by
  have h1 : 2 * (k * (num % den)) < k * den ↔ 2 * (num % den) < den := by
    rw [Nat.mul_left_comm, Nat.mul_lt_mul_left hk]
  have h2 : k * den < 2 * (k * (num % den)) ↔ den < 2 * (num % den) := by
    rw [Nat.mul_left_comm, Nat.mul_lt_mul_left hk]
  simp only [roundDiv, Nat.mul_div_mul_left _ _ hk, Nat.mul_mod_mul_left, h1, h2]

theorem roundDiv_eq_of_cross {a b c d : Nat} (hb : 0 < b) (hd : 0 < d) (h : a * d = c * b) :
    roundDiv a b = roundDiv c d := by
  rw [← roundDiv_mul_left hd a b, ← roundDiv_mul_left hb c d, Nat.mul_comm d a, h,
    Nat.mul_comm d b, Nat.mul_comm c b]

theorem roundDiv_mul_self {den : Nat} (hden : 0 < den) (m : Nat) : roundDiv (m * den) den = m := by
  simp [roundDiv, Nat.mul_div_cancel _ hden, hden]

end RoundDiv

section NearestBits

theorem scaled_num_pos {m : Nat} (hm : 0 < m) (e : Int) : 0 < (Ratio.scaled 2 m e).num := by
  unfold Ratio.scaled
  split
  · exact Nat.mul_pos hm (Nat.two_pow_pos _)
  · exact hm

/-- The mantissa before it is joined with its exponent. -/
theorem roundDiv_scaled {a b c d : Nat} (hb : 0 < b) (hd : 0 < d) (u v : Int)
    (h : (a : ℚ) / b / 2 ^ u = (c : ℚ) / d / 2 ^ v) :
    roundDiv (a * (Ratio.scaled 2 b u).den) (Ratio.scaled 2 b u).num =
      roundDiv (c * (Ratio.scaled 2 d v).den) (Ratio.scaled 2 d v).num := by
  have hb' : (b : ℚ) ≠ 0 := by exact_mod_cast Nat.ne_of_gt hb
  have hd' : (d : ℚ) ≠ 0 := by exact_mod_cast Nat.ne_of_gt hd
  apply roundDiv_eq_of_cross (scaled_num_pos hb u) (scaled_num_pos hd v)
  rw [← @Nat.cast_inj ℚ]
  push_cast
  rw [scaled_num 2 b u (by omega), scaled_num 2 d v (by omega)]
  have hcross : (a : ℚ) * (d * 2 ^ v) = c * (b * 2 ^ u) := by
    field_simp at h
    linarith
  push_cast
  calc (a : ℚ) * (Ratio.scaled 2 b u).den * (d * 2 ^ v * (Ratio.scaled 2 d v).den)
      = a * (d * 2 ^ v) * ((Ratio.scaled 2 b u).den * (Ratio.scaled 2 d v).den) := by ring
    _ = c * (b * 2 ^ u) * ((Ratio.scaled 2 b u).den * (Ratio.scaled 2 d v).den) := by rw [hcross]
    _ = c * (Ratio.scaled 2 d v).den * (b * 2 ^ u * (Ratio.scaled 2 b u).den) := by ring

theorem nearestBits_eq_of_div {a b c d : Nat} (hb : 0 < b) (hd : 0 < d)
    (h : (a : ℚ) / b = (c : ℚ) / d) : nearestBits a b = nearestBits c d := by
  have hb' : (b : ℚ) ≠ 0 := by exact_mod_cast Nat.ne_of_gt hb
  have hd' : (d : ℚ) ≠ 0 := by exact_mod_cast Nat.ne_of_gt hd
  have hzero : a = 0 ↔ c = 0 := by
    have hiff : (a : ℚ) / b = 0 ↔ (c : ℚ) / d = 0 := by rw [h]
    simpa [hb', hd'] using hiff
  unfold nearestBits
  by_cases ha : a = 0
  · rw [if_pos ha, if_pos (hzero.mp ha)]
  · have hc : c ≠ 0 := fun hc => ha (hzero.mpr hc)
    rw [if_neg ha, if_neg hc]
    have hlog : binaryLog a b = binaryLog c d := by
      rw [binaryLog_eq (Nat.pos_of_ne_zero ha) hb, binaryLog_eq (Nat.pos_of_ne_zero hc) hd, h]
    dsimp only
    rw [hlog, roundDiv_scaled hb hd _ _ (congrArg (· / _) h)]

/-- A float is the nearest one to its own value. -/
theorem nearestBits_scaled {m : Nat} {e : Int} (hm : 0 < m) (hm' : m < 2 ^ 53) (he : -1074 ≤ e)
    (hnormal : e = -1074 ∨ 2 ^ 52 ≤ m) :
    nearestBits (Ratio.scaled 2 m e).num (Ratio.scaled 2 m e).den =
      min ((e + 1074).toNat * 0x10000000000000 + m) infinityBits := by
  have hden := scaled_den_pos 2 m e (by omega)
  have hnum := scaled_num_pos hm e
  have hvalue := scaled_div 2 m e (by omega)
  have hlog : binaryLog (Ratio.scaled 2 m e).num (Ratio.scaled 2 m e).den = Nat.log 2 m + e := by
    rw [binaryLog_eq hnum hden, hvalue]
    exact log_mul_zpow Nat.one_lt_two hm e
  -- a mantissa of full length fixes the unit, and a shorter one stands at the least unit
  have hlt : Nat.log 2 m < 53 := Nat.log_lt_of_lt_pow (by omega) hm'
  have hunit :
      max (binaryLog (Ratio.scaled 2 m e).num (Ratio.scaled 2 m e).den - 52) (-1074) = e := by
    rw [hlog]
    rcases hnormal with he' | hle
    · omega
    · have h52 : 52 ≤ Nat.log 2 m := Nat.le_log_of_pow_le Nat.one_lt_two hle
      omega
  have hround :
      roundDiv ((Ratio.scaled 2 m e).num * (Ratio.scaled 2 (Ratio.scaled 2 m e).den e).den)
        (Ratio.scaled 2 (Ratio.scaled 2 m e).den e).num = roundDiv (m * 1) 1 := by
    apply roundDiv_scaled hden Nat.one_pos e 0
    rw [hvalue, Nat.cast_ofNat, mul_div_cancel_right₀ _ (zpow_ne_zero e two_ne_zero)]
    simp
  unfold nearestBits
  rw [if_neg (Nat.ne_of_gt hnum)]
  dsimp only
  rw [hunit, hround, roundDiv_mul_self Nat.one_pos]

theorem nearestBits_le (num den : Nat) : nearestBits num den ≤ infinityBits := by
  unfold nearestBits
  split
  · exact Nat.zero_le _
  · exact Nat.min_le_right _ _

end NearestBits

end Calculator

import Calculator.Decimal.Shortest
import Calculator.Proofs.Nearest
import Calculator.Proofs.StoredBits

/-! The shortest decimal of a float is read back as that float. The bits of a decimal depend on its
value alone, and no step from the float to the decimal leaves the values that are rounded to it. -/

set_option autoImplicit false

namespace Calculator.Decimal

def value (d : Decimal) : ℚ := d.digits * 10 ^ d.exponent

theorem value_eq_zero_iff (d : Decimal) : d.value = 0 ↔ d.digits = 0 := by
  have hten : (10 : ℚ) ^ d.exponent ≠ 0 := zpow_ne_zero _ (by norm_num)
  simp [value, hten]

theorem digitCount_eq {n : Nat} (hn : n ≠ 0) : digitCount n = Nat.log 10 n + 1 := by
  have hlength (k : Nat) (hk : 0 < k) : digitCount n ≤ k ↔ Nat.log 10 n < k := by
    rw [Nat.log_lt_iff_lt_pow (by omega) hn]
    exact Nat.length_toDigits_le_iff (by omega) hk
  have hpos : 0 < digitCount n := Nat.length_toDigits_pos
  have h1 := (hlength (digitCount n) hpos).mp (Nat.le_refl _)
  have h2 := (hlength (Nat.log 10 n + 1) (by omega)).mpr (by omega)
  omega

theorem magnitude_eq {d : Decimal} (h : d.digits ≠ 0) : d.magnitude = Int.log 10 d.value := by
  have hlog := log_mul_zpow (show 1 < 10 by omega) (Nat.pos_of_ne_zero h) d.exponent
  have hvalue : d.value = (d.digits : ℚ) * ((10 : ℕ) : ℚ) ^ d.exponent := by
    rw [value, Nat.cast_ofNat]
  rw [hvalue, hlog, magnitude, digitCount_eq h]
  push_cast
  omega

/-- The bits of a decimal whose magnitude is one of floats. -/
theorem toBits_eq_nearestBits {d : Decimal} {num den : Nat} (h : d.digits ≠ 0) (hden : 0 < den)
    (hvalue : d.value = (num : ℚ) / den) (hlow : -330 ≤ d.magnitude) (hhigh : d.magnitude ≤ 310) :
    d.toBits = nearestBits num den := by
  have hscaled := scaled_div 10 d.digits d.exponent (by omega)
  rw [toBits, if_neg h, if_neg (by omega), if_neg (by omega)]
  apply nearestBits_eq_of_div (scaled_den_pos 10 _ _ (by omega)) hden
  rw [hscaled, ← hvalue, value, Nat.cast_ofNat]

/-- Equal decimals are read as the same float. -/
theorem toBits_eq_of_value {c d : Decimal} (h : c.value = d.value) : c.toBits = d.toBits := by
  have hzero : c.digits = 0 ↔ d.digits = 0 := by
    rw [← value_eq_zero_iff, ← value_eq_zero_iff, h]
  by_cases hd : d.digits = 0
  · rw [toBits, toBits, if_pos (hzero.mpr hd), if_pos hd]
  · have hc : c.digits ≠ 0 := fun hc => hd (hzero.mp hc)
    have hmagnitude : c.magnitude = d.magnitude := by rw [magnitude_eq hc, magnitude_eq hd, h]
    by_cases hlow : d.magnitude < -330
    · have hhigh : ¬ 310 < d.magnitude := by omega
      simp only [toBits, hmagnitude, if_neg hc, if_neg hd, if_neg hhigh, if_pos hlow]
    · by_cases hhigh : 310 < d.magnitude
      · simp only [toBits, hmagnitude, if_neg hc, if_neg hd, if_pos hhigh]
      · have hden := scaled_den_pos 10 d.digits d.exponent (by omega)
        have hvalue : d.value = _ := (scaled_div 10 d.digits d.exponent (by omega)).symm
        rw [toBits_eq_nearestBits hc hden (h.trans hvalue) (by omega) (by omega),
          toBits_eq_nearestBits hd hden hvalue (by omega) (by omega)]

theorem toBits_le (d : Decimal) : d.toBits ≤ infinityBits := by
  unfold toBits
  split
  · exact Nat.zero_le _
  · split
    · exact Nat.le_refl _
    · split
      · exact Nat.zero_le _
      · exact nearestBits_le _ _

theorem value_trimmed_go (n : Nat) (d : Decimal) : (trimmed.go n d).value = d.value := by
  induction n generalizing d with
  | zero => rfl
  | succ n ih =>
    unfold trimmed.go
    split
    · rename_i h
      have hten : d.digits / 10 * 10 = d.digits := by omega
      have hcast : ((d.digits / 10 : Nat) : ℚ) * 10 = d.digits := by exact_mod_cast hten
      rw [ih, value, value, zpow_add_one₀ (by norm_num), ← hcast]
      ring
    · rfl

theorem value_trimmed (d : Decimal) : d.trimmed.value = d.value := value_trimmed_go _ d

section Exact
variable {m : Nat} {e : Int}

theorem value_exact : (exact m e).value = m * 2 ^ e := by
  unfold exact
  split
  · rename_i he
    obtain ⟨k, rfl⟩ := Int.eq_ofNat_of_zero_le he
    simp [value, Nat.pow_eq]
  · obtain ⟨k, rfl⟩ := Int.exists_eq_neg_ofNat (by omega : e ≤ 0)
    have hten : (10 : ℚ) ^ k = 2 ^ k * 5 ^ k := by rw [← mul_pow]; norm_num
    simp only [value, neg_neg, Int.toNat_natCast, Nat.pow_eq, zpow_neg, zpow_natCast, hten]
    push_cast
    field_simp

theorem exact_digits_pos (hm : 0 < m) : (exact m e).digits ≠ 0 := by
  unfold exact
  split
  · exact (Nat.mul_pos hm (Nat.pow_pos two_pos)).ne'
  · exact (Nat.mul_pos hm (Nat.pow_pos (by omega))).ne'

theorem ten_zpow_le_two_zpow : (10 : ℚ) ^ (-330 : ℤ) ≤ 2 ^ (-1074 : ℤ) := by
  have hnat : 2 ^ 1074 ≤ 10 ^ 330 := by decide +kernel
  have hrat : (2 : ℚ) ^ 1074 ≤ 10 ^ 330 := by exact_mod_cast hnat
  rw [zpow_neg, zpow_neg, zpow_ofNat, zpow_ofNat]
  exact inv_anti₀ (pow_pos two_pos _) hrat

theorem two_zpow_lt_ten_zpow : (2 : ℚ) ^ (1024 : ℤ) < 10 ^ (311 : ℤ) := by
  have hnat : 2 ^ 1024 < 10 ^ 311 := by decide +kernel
  exact_mod_cast hnat

/-- Every positive float lies well within the magnitudes that are not cut off. -/
theorem exact_magnitude (hm : 0 < m) (hm' : m < 2 ^ 53) (he : -1074 ≤ e) (he' : e ≤ 971) :
    -330 ≤ (exact m e).magnitude ∧ (exact m e).magnitude ≤ 310 := by
  have hone : (1 : ℚ) ≤ m := by exact_mod_cast hm
  have hlt : (m : ℚ) < 2 ^ (53 : ℤ) := by exact_mod_cast hm'
  have hpos : (0 : ℚ) < 2 ^ e := zpow_pos two_pos e
  have hvalue : (0 : ℚ) < m * 2 ^ e := by positivity
  rw [magnitude_eq (exact_digits_pos hm), value_exact]
  constructor
  · rw [← Int.zpow_le_iff_le_log (by omega) hvalue]
    calc ((10 : ℕ) : ℚ) ^ (-330 : ℤ) ≤ 2 ^ (-1074 : ℤ) := ten_zpow_le_two_zpow
      _ ≤ 2 ^ e := zpow_le_zpow_right₀ one_le_two he
      _ ≤ m * 2 ^ e := le_mul_of_one_le_left hpos.le hone
  · have hlog : Int.log 10 ((m : ℚ) * 2 ^ e) < 311 := by
      rw [← Int.lt_zpow_iff_log_lt (by omega) hvalue]
      calc (m : ℚ) * 2 ^ e < 2 ^ (53 : ℤ) * 2 ^ e := mul_lt_mul_of_pos_right hlt hpos
        _ = 2 ^ (53 + e) := (zpow_add₀ two_ne_zero _ _).symm
        _ ≤ 2 ^ (1024 : ℤ) := zpow_le_zpow_right₀ one_le_two (by omega)
        _ < ((10 : ℕ) : ℚ) ^ (311 : ℤ) := two_zpow_lt_ten_zpow
    omega

theorem toBits_exact (hm : 0 < m) (hm' : m < 2 ^ 53) (he : -1074 ≤ e) (he' : e ≤ 971) :
    (exact m e).toBits = nearestBits (Ratio.scaled 2 m e).num (Ratio.scaled 2 m e).den := by
  obtain ⟨hlow, hhigh⟩ := exact_magnitude hm hm' he he'
  apply toBits_eq_nearestBits (exact_digits_pos hm) (scaled_den_pos 2 m e (by omega)) _ hlow hhigh
  rw [value_exact, scaled_div 2 m e (by omega), Nat.cast_ofNat]

theorem toBits_shortest (hm : 0 < m) (hm' : m < 2 ^ 53) (he : -1074 ≤ e) (he' : e ≤ 971) :
    (shortest m e).toBits = nearestBits (Ratio.scaled 2 m e).num (Ratio.scaled 2 m e).den := by
  rw [shortest, toBits_eq_of_value (value_trimmed _)]
  cases hfound : (candidates m e).find? _ with
  | none => exact toBits_exact hm hm' he he'
  | some d =>
    have hd := List.find?_some hfound
    exact beq_iff_eq.mp hd

end Exact

/-- A finite float that is not negative has parts whose shortest decimal gives its bits back. -/
theorem exists_shortest {n : Nat} (h : n < infinityBits) :
    ∃ m e, Binary.ofFloat (Float.ofBits n.toUInt64) = .finite false m e ∧ (m = 0 → n = 0) ∧
      (m ≠ 0 → (shortest m e).toBits = n) := by
  have hlt : n < 0x7ff0000000000000 := h
  have hparts := ofFloat_ofBits h
  by_cases hsmall : n < 0x10000000000000
  · rw [if_pos hsmall] at hparts
    refine ⟨n, -1074, hparts, id, ?_⟩
    intro hn
    rw [toBits_shortest (by omega) (by omega) (by omega) (by omega),
      nearestBits_scaled (by omega) (by omega) (by omega) (Or.inl rfl), Nat.min_eq_left]
    · exact Nat.zero_add n
    · change 0 * 0x10000000000000 + n ≤ _
      omega
  · rw [if_neg hsmall] at hparts
    refine ⟨_, _, hparts, by omega, ?_⟩
    intro hn
    have hbits : (((n / 0x10000000000000 : Nat) : Int) - 1075 + 1074).toNat * 0x10000000000000 +
        (0x10000000000000 + n % 0x10000000000000) = n := by
      omega
    rw [toBits_shortest (by omega) (by omega) (by omega) (by omega),
      nearestBits_scaled (by omega) (by omega) (by omega) (Or.inr (by omega)), hbits,
      Nat.min_eq_left (Nat.le_of_lt h)]

end Calculator.Decimal

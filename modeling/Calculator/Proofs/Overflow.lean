import Calculator.Proofs.Nearest

/-! Natural numbers too large for a float. Rounding takes them to infinity, and it does so from the
middle between the greatest float and the next power of two on. -/

set_option autoImplicit false

namespace Calculator

/-- An even integer is reached from half a unit below it on. -/
theorem le_roundDiv_iff {m den : Nat} (hm : m % 2 = 0) (hden : 0 < den) (num : Nat) :
    m ≤ roundDiv num den ↔ 2 * (m * den) ≤ 2 * num + den := by
  have hnum := Nat.div_add_mod' num den
  have hrest := Nat.mod_lt num hden
  unfold roundDiv
  dsimp only
  rcases Nat.lt_trichotomy m (num / den + 1) with hlt | heq | hgt
  · have hle : m * den ≤ num / den * den := Nat.mul_le_mul_right den (Nat.le_of_lt_succ hlt)
    constructor
    · intro _
      omega
    · intro _
      split_ifs <;> omega
  · -- the one case in which the remainder decides
    have hnext : m * den = num / den * den + den := by rw [heq, Nat.succ_mul]
    split_ifs <;> omega
  · have hle : (num / den + 2) * den ≤ m * den := Nat.mul_le_mul_right den hgt
    rw [Nat.add_mul] at hle
    constructor
    · intro h
      split_ifs at h <;> omega
    · intro _
      omega

theorem binaryLog_one {n : Nat} (hn : 0 < n) : binaryLog n 1 = n.log2 := by
  have hlow : 2 ^ n.log2 ≤ n := Nat.log2_self_le (Nat.ne_of_gt hn)
  have hone : Nat.log2 1 = 0 := by decide
  simp [binaryLog, Ratio.scaled, hone, hlow]

/-- A natural number has a mantissa of fifty-three bits at the unit of its logarithm. -/
theorem mantissa_bounds {n : Nat} (hn : 0 < n) :
    2 ^ 52 * (Ratio.scaled 2 1 (n.log2 - 52)).num ≤ n * (Ratio.scaled 2 1 (n.log2 - 52)).den ∧
      n * (Ratio.scaled 2 1 (n.log2 - 52)).den < 2 ^ 53 * (Ratio.scaled 2 1 (n.log2 - 52)).num := by
  have hlow : 2 ^ n.log2 ≤ n := Nat.log2_self_le (Nat.ne_of_gt hn)
  have hhigh : n < 2 ^ (n.log2 + 1) := Nat.lt_log2_self
  generalize n.log2 = k at hlow hhigh
  by_cases hk : 52 ≤ k
  · obtain ⟨j, rfl⟩ := Nat.exists_eq_add_of_le hk
    have hstep : Ratio.scaled 2 1 ((52 + j : Nat) - 52) = ⟨2 ^ j, 1⟩ := by
      simp [Ratio.scaled]
    rw [hstep]
    rw [Nat.pow_add] at hlow
    rw [Nat.add_right_comm, Nat.pow_add] at hhigh
    dsimp only
    omega
  · obtain ⟨j, hj⟩ := Nat.exists_eq_add_of_lt (Nat.lt_of_not_le hk)
    have hstep : Ratio.scaled 2 1 ((k : Nat) - 52) = ⟨1, 2 ^ (j + 1)⟩ := by
      have hneg : ¬ (0 : Int) ≤ (k : Int) - 52 := by omega
      have hpow : (-((k : Int) - 52)).toNat = j + 1 := by omega
      simp only [Ratio.scaled, if_neg hneg, hpow]
      rfl
    have hpos : 0 < 2 ^ (j + 1) := Nat.two_pow_pos _
    have hfloor : 2 ^ k * 2 ^ (j + 1) = 2 ^ 52 := by rw [← Nat.pow_add, hj, Nat.add_assoc]
    have hceil : 2 ^ (k + 1) * 2 ^ (j + 1) = 2 ^ 53 := by
      rw [Nat.pow_succ, Nat.mul_right_comm, hfloor, ← Nat.pow_succ]
    rw [hstep]
    dsimp only
    rw [Nat.mul_one, Nat.mul_one, ← hfloor, ← hceil]
    exact ⟨Nat.mul_le_mul_right _ hlow, Nat.mul_lt_mul_of_pos_right hhigh hpos⟩

/-- The bits of a natural number are its exponent and a mantissa between two powers of two. -/
theorem exists_mantissa {n : Nat} (hn : 0 < n) :
    ∃ r, nearestBits n 1 = min ((n.log2 + 1022) * 0x10000000000000 + r) infinityBits ∧
      2 ^ 52 ≤ r ∧ r < 2 ^ 53 + 2 ∧ ∀ k, n.log2 = 52 + k → r = roundDiv n (2 ^ k) := by
  obtain ⟨hlow, hhigh⟩ := mantissa_bounds hn
  have hnum : 0 < (Ratio.scaled 2 1 (n.log2 - 52)).num := scaled_num_pos Nat.one_pos _
  have hunit : max ((n.log2 : Int) - 52) (-1074) = n.log2 - 52 := by omega
  have hexponent : ((n.log2 : Int) - 52 + 1074).toNat = n.log2 + 1022 := by omega
  refine ⟨roundDiv (n * (Ratio.scaled 2 1 (n.log2 - 52)).den) (Ratio.scaled 2 1 (n.log2 - 52)).num,
    ?_, ?_, ?_, fun k hk => ?_⟩
  · rw [nearestBits, if_neg (Nat.ne_of_gt hn), binaryLog_one hn, hunit]
    dsimp only
    rw [hexponent]
  · rw [le_roundDiv_iff (by decide) hnum]
    omega
  · rw [← Nat.not_le, le_roundDiv_iff (by decide) hnum]
    omega
  · simp [hk, Ratio.scaled]

theorem nearestBits_eq_infinityBits_iff (n : Nat) :
    nearestBits n 1 = infinityBits ↔ 2 ^ 1024 - 2 ^ 970 ≤ n := by
  have hhalf : 0 < 2 ^ 970 := pow_pos Nat.two_pos 970
  have hunit : 2 ^ 971 = 2 * 2 ^ 970 := by rw [← pow_succ']
  have htop : 2 ^ 1024 = 2 ^ 54 * 2 ^ 970 := by rw [← pow_add]
  rcases Nat.eq_zero_or_pos n with rfl | hn
  · have hzero : nearestBits 0 1 ≠ infinityBits := by decide
    rw [htop]
    simp only [hzero, false_iff]
    omega
  obtain ⟨r, hbits, hlow, hhigh, hround⟩ := exists_mantissa hn
  have hfloor : 2 ^ n.log2 ≤ n := Nat.log2_self_le (Nat.ne_of_gt hn)
  have hceil : n < 2 ^ (n.log2 + 1) := Nat.lt_log2_self
  have hreach : nearestBits n 1 = infinityBits ↔
      infinityBits ≤ (n.log2 + 1022) * 0x10000000000000 + r := by
    rw [hbits]
    omega
  rw [hreach, infinityBits, htop]
  rcases Nat.lt_trichotomy n.log2 1023 with hless | hequal | hmore
  · -- the mantissa cannot make up for the exponent
    have hpow : 2 ^ (n.log2 + 1) ≤ 2 ^ (53 + 970) := pow_le_pow_right₀ one_le_two hless
    rw [pow_add 2 53 970] at hpow
    omega
  · -- the mantissa has to be rounded up to the next power of two
    have hmiddle : 2 ^ 53 ≤ r ↔ 2 * (2 ^ 53 * (2 * 2 ^ 970)) ≤ 2 * n + 2 * 2 ^ 970 := by
      rw [hround 971 hequal, hunit]
      exact le_roundDiv_iff (by decide) (Nat.mul_pos Nat.two_pos hhalf) n
    omega
  · have hpow : 2 ^ (54 + 970) ≤ 2 ^ n.log2 := pow_le_pow_right₀ one_le_two hmore
    rw [pow_add 2 54 970] at hpow
    omega

end Calculator

import TokenWire.Proofs.Rounding
import TokenWire.SystemProgram.Instruction

/-! The balance that frees an account from rent, over all integers. -/

namespace TokenWire

theorem two_pow_le_roundToBits_iff {bits k top : Nat} (hbits : 0 < bits)
    (htop : top = bits + 1 + (k + 1)) (n : Nat) :
    2 ^ top ≤ roundToBits (bits + 1) n ↔ 2 ^ top - 2 ^ k ≤ n := by
  subst htop
  have h := (isRounding_roundToBits hbits n).two_pow_le_iff hbits k
  have hle : 2 ^ k ≤ 2 ^ (bits + 1 + (k + 1)) := Nat.pow_le_pow_right (by omega) (by omega)
  rw [← Int.ofNat_le, ← Int.ofNat_le, Int.ofNat_sub hle]
  exact_mod_cast h

/-- A number and its negative are rounded to as much. -/
theorem natAbs_roundToDouble (n : Int) :
    (roundToDouble n).natAbs = roundToBits significandBits n.natAbs := by
  rcases eq_or_ne n 0 with rfl | hn
  · rfl
  · rw [roundToDouble, Int.natAbs_mul, Int.natAbs_sign_of_ne_zero hn, one_mul, Int.natAbs_natCast]

theorem roundToDouble_natCast (n : Nat) : roundToDouble n = roundToBits significandBits n := by
  rcases Nat.eq_zero_or_pos n with rfl | hn
  · rfl
  · rw [roundToDouble, Int.sign_natCast_of_ne_zero hn.ne', one_mul, Int.natAbs_natCast]

theorem roundToDouble_neg (n : Int) : roundToDouble (-n) = -roundToDouble n := by
  rw [roundToDouble, roundToDouble, Int.sign_neg, Int.natAbs_neg, Int.neg_mul]

theorem isRounding_roundToDouble (n : Int) : IsRounding significandBits n (roundToDouble n) := by
  have hnat : ∀ m : Nat, IsRounding significandBits m (roundToDouble m) := by
    intro m
    rw [roundToDouble_natCast]
    exact isRounding_roundToBits (by decide) m
  obtain ⟨m, rfl | rfl⟩ := Int.eq_nat_or_neg n
  · exact hnat m
  · rw [roundToDouble_neg]
    exact (hnat m).neg

theorem roundToDouble_sub_le (n : Int) :
    (roundToDouble n - n).natAbs * 2 ^ significandBits ≤ n.natAbs := by
  have hnat : ∀ m : Nat, (roundToDouble m - m).natAbs * 2 ^ significandBits ≤ m := by
    intro m
    rw [roundToDouble_natCast]
    exact roundToBits_sub_le m
  obtain ⟨m, rfl | rfl⟩ := Int.eq_nat_or_neg n
  · exact hnat m
  · have hdist : (roundToDouble (-m) - -m).natAbs = (roundToDouble m - m).natAbs := by
      rw [roundToDouble_neg]
      omega
    rw [hdist, Int.natAbs_neg]
    exact hnat m

namespace Rent

theorem doubleBound_eq : doubleBound = 2 ^ 1024 := by
  have hshift : ∀ k : Nat, 1 <<< k = 2 ^ k := Nat.one_shiftLeft
  exact hshift 1024

theorem doubleBound_le_iff (n : Int) :
    doubleBound ≤ (roundToDouble n).natAbs ↔ 2 ^ 1024 - 2 ^ 970 ≤ n.natAbs := by
  rw [natAbs_roundToDouble, doubleBound_eq]
  have h := @two_pow_le_roundToBits_iff 52 970 1024 (by decide) rfl n.natAbs
  exact h

theorem doubleBound_le_two_mul_iff (n : Int) :
    doubleBound ≤ (2 * roundToDouble n).natAbs ↔ 2 ^ 1023 - 2 ^ 969 ≤ n.natAbs := by
  have h := @two_pow_le_roundToBits_iff 52 969 1023 (by decide) rfl n.natAbs
  rw [Int.natAbs_mul, natAbs_roundToDouble, doubleBound_eq, pow_succ' 2 1023, ← h]
  exact Nat.mul_le_mul_left_iff (by decide)

/-- What the balance is, by the size of the yearly rent. -/
theorem minimumBalance_eq (n : Int) : minimumBalance n =
    if 2 ^ 1024 - 2 ^ 970 ≤ (yearly n).natAbs then .error .rentTooLarge
    else if 2 ^ 1023 - 2 ^ 969 ≤ (yearly n).natAbs then .error .rentInfinite
    else .ok (2 * roundToDouble (yearly n)) := by
  have hcomm : roundToDouble (yearly n) * exemptionYears = 2 * roundToDouble (yearly n) :=
    Int.mul_comm _ _
  simp only [minimumBalance, doubleBound_le_iff, hcomm,
    doubleBound_le_two_mul_iff]

theorem eq_of_minimumBalance {n b : Int} (h : minimumBalance n = .ok b) :
    b = 2 * roundToDouble (yearly n) := by
  rw [minimumBalance_eq] at h
  split at h
  · cases h
  · split at h
    · cases h
    · exact (Except.ok.inj h).symm

theorem minimumBalance_eq_ok {n : Int} (h : (yearly n).natAbs < 2 ^ 1023 - 2 ^ 969) :
    minimumBalance n = .ok (2 * roundToDouble (yearly n)) := by
  have htop : (2 : Nat) ^ 1023 - 2 ^ 969 ≤ 2 ^ 1024 - 2 ^ 970 := by decide +kernel
  rw [minimumBalance_eq, if_neg (not_le.mpr (lt_of_lt_of_le h htop)), if_neg (not_le.mpr h)]

/-- A yearly rent that is a number of double precision is not rounded. -/
theorem minimumBalance_of_le {n : Int} (h : (yearly n).natAbs ≤ 2 ^ significandBits) :
    minimumBalance n = .ok (2 * yearly n) := by
  have hround : roundToDouble (yearly n) = yearly n :=
    (isRounding_roundToDouble _).eq_of_significant (significant_of_natAbs_le (by decide) h)
  have htop : (2 : Nat) ^ significandBits < 2 ^ 1023 - 2 ^ 969 := by decide +kernel
  rw [minimumBalance_eq_ok (lt_of_le_of_lt h htop), hround]

/--
The balance is twice the yearly rent as a number of double precision, where that is one, and else an
error tells which step goes beyond double precision. So the balance grows with the size, is off by
less than what one bit behind the significand is worth, and is exact for small rents, among them the
rent of every size an account may have.
-/
theorem minimumBalance_rounds :
    (∀ n, yearly n = (128 + n) * 3480 ∧ ∃! r, IsRounding 53 (yearly n) r) ∧
    (∀ n r, IsRounding 53 (yearly n) r →
      ((yearly n).natAbs < 2 ^ 1023 - 2 ^ 969 → minimumBalance n = .ok (2 * r)) ∧
      (2 ^ 1023 - 2 ^ 969 ≤ (yearly n).natAbs → (yearly n).natAbs < 2 ^ 1024 - 2 ^ 970 →
        minimumBalance n = .error .rentInfinite) ∧
      (2 ^ 1024 - 2 ^ 970 ≤ (yearly n).natAbs → minimumBalance n = .error .rentTooLarge)) ∧
    Error.rentInfinite.message = "cannot convert float infinity to integer" ∧
    Error.rentTooLarge.message = "int too large to convert to float" ∧
    (∀ n n' b b', n ≤ n' → minimumBalance n = .ok b → minimumBalance n' = .ok b' → b ≤ b') ∧
    (∀ n b, minimumBalance n = .ok b →
      (b - 6960 * (128 + n)).natAbs * 2 ^ 53 ≤ (6960 * (128 + n)).natAbs) ∧
    (∀ n, (yearly n).natAbs ≤ 2 ^ 53 → minimumBalance n = .ok (6960 * (128 + n))) ∧
    ∀ n : Nat, n ≤ SystemProgram.maxDataLength → minimumBalance n = .ok (6960 * (128 + n)) := by
  have hyearly : ∀ n, yearly n = (128 + n) * 3480 := fun n => rfl
  have hdouble : ∀ n, 2 * yearly n = 6960 * (128 + n) := by
    intro n
    rw [hyearly]
    ring
  have hexact : ∀ n, (yearly n).natAbs ≤ 2 ^ 53 → minimumBalance n = .ok (6960 * (128 + n)) := by
    intro n hn
    rw [minimumBalance_of_le hn, hdouble]
  refine ⟨?_, ?_, rfl, rfl, ?_, ?_, hexact, ?_⟩
  · intro n
    have hround := isRounding_roundToDouble (yearly n)
    exact ⟨hyearly n, _, hround, fun r hr => hr.unique hround⟩
  · intro n r hr
    have hround : roundToDouble (yearly n) = r := (isRounding_roundToDouble _).unique hr
    rw [← hround]
    refine ⟨minimumBalance_eq_ok, ?_, ?_⟩
    · intro hle hlt
      rw [minimumBalance_eq, if_neg (not_le.mpr hlt), if_pos hle]
    · intro hle
      rw [minimumBalance_eq, if_pos hle]
  · intro n n' b b' hn hb hb'
    have hmono : yearly n ≤ yearly n' := by
      rw [hyearly, hyearly]
      omega
    have hle := (isRounding_roundToDouble (yearly n)).mono (isRounding_roundToDouble _) hmono
    rw [eq_of_minimumBalance hb, eq_of_minimumBalance hb']
    omega
  · intro n b hb
    have hle := roundToDouble_sub_le (yearly n)
    have hdist : (b - 6960 * (128 + n)).natAbs =
        2 * (roundToDouble (yearly n) - yearly n).natAbs := by
      rw [eq_of_minimumBalance hb, ← hdouble]
      omega
    rw [hdist, ← hdouble, Int.natAbs_mul, mul_assoc]
    exact Nat.mul_le_mul_left 2 hle
  · intro n hn
    apply hexact
    rw [hyearly]
    unfold SystemProgram.maxDataLength at hn
    omega

/-- A yearly rent halfway between two numbers of double precision becomes the even one; of the two
steps that can go beyond double precision, the second one does so first. -/
theorem minimumBalance_rounds_halfway :
    minimumBalance 20706205183645 = .ok (2 * 72057594039530048) ∧
    yearly 20706205183645 = 72057594039530048 - 16 / 2 ∧
    minimumBalance (2 ^ 1023 / 3480 : Nat) = .error .rentInfinite ∧
    minimumBalance (2 ^ 1024 : Nat) = .error .rentTooLarge := by
  have hrounding : ∀ n, IsRounding 53 (yearly n) (roundToDouble (yearly n)) :=
    fun n => isRounding_roundToDouble _
  have hcases := fun n => minimumBalance_rounds.2.1 n _ (hrounding n)
  have hround : roundToDouble (yearly 20706205183645) = 72057594039530048 := by decide +kernel
  refine ⟨?_, by decide, ?_, ?_⟩
  · rw [← hround]
    exact (hcases _).1 (by decide +kernel)
  · exact (hcases _).2.1 (by decide +kernel) (by decide +kernel)
  · exact (hcases _).2.2 (by decide +kernel)

end Rent
end TokenWire

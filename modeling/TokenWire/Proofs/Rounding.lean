import Mathlib.Algebra.Order.Group.Nat
import Mathlib.Algebra.Ring.Parity
import Mathlib.Algebra.Ring.Int.Parity
import Mathlib.Tactic.Ring
import Mathlib.Tactic.Linarith
import TokenWire.Rent

/-!
Numbers rounded to so many significant bits. The rounded number is told by what it is, the nearest
one with so few bits and of two equally near the even one; that there is just one, that it keeps the
order, and how large it can be follow from this alone.
-/

namespace TokenWire

/-- The integer has at most so many significant bits. -/
def Significant (bits : Nat) (n : Int) : Prop :=
  ∃ (m : Int) (e : Nat), n = m * 2 ^ e ∧ m.natAbs < 2 ^ bits

/-- The second number is the first one rounded to so many significant bits. -/
structure IsRounding (bits : Nat) (n r : Int) : Prop where
  significant : Significant bits r
  nearest : ∀ r', Significant bits r' → (r - n).natAbs ≤ (r' - n).natAbs
  /-- Of two equally near, the significand is even: it can do with a bit less. -/
  even : ∀ r', Significant bits r' → r' ≠ r → (r' - n).natAbs = (r - n).natAbs →
    Significant (bits - 1) r

variable {bits : Nat} {n n' r r' : Int}

theorem Significant.neg (h : Significant bits n) : Significant bits (-n) := by
  obtain ⟨m, e, rfl, hm⟩ := h
  exact ⟨-m, e, by ring, by omega⟩

/-- A multiple of a power of two has few bits if its multiplier is in the range, or the least
number beyond it. -/
theorem significant_mul {m e : Nat} (hbits : 0 < bits) (h : m ≤ 2 ^ bits) :
    Significant bits (m * 2 ^ e) := by
  rcases Nat.lt_or_eq_of_le h with hlt | rfl
  · exact ⟨m, e, rfl, hlt⟩
  · have hone : 1 < 2 ^ bits := Nat.one_lt_two_pow (by omega)
    exact ⟨1, bits + e, by push_cast; ring, hone⟩

theorem significant_mul_of_even {m e : Nat} (hbits : 0 < bits) (h : m ≤ 2 ^ (bits + 1))
    (heven : m % 2 = 0) : Significant bits (m * 2 ^ e) := by
  obtain ⟨j, rfl⟩ := Nat.dvd_of_mod_eq_zero heven
  have hj : j ≤ 2 ^ bits := by
    rw [pow_succ] at h
    omega
  have hmul : ((2 * j : Nat) : Int) * 2 ^ e = j * 2 ^ (e + 1) := by
    push_cast
    ring
  rw [hmul]
  exact significant_mul hbits hj

theorem significant_of_natAbs_le (hbits : 0 < bits) (h : n.natAbs ≤ 2 ^ bits) :
    Significant bits n := by
  have habs : Significant bits (n.natAbs : Int) := by
    simpa using significant_mul (e := 0) hbits h
  rcases Int.natAbs_eq n with hn | hn
  · rw [hn]
    exact habs
  · rw [hn]
    exact habs.neg

/-- Between two multiples of a power of two that need all bits there is no number with so few. -/
theorem Significant.le_or_le {q e : Nat} (h : Significant bits r) (hq : 2 ^ bits ≤ 2 * q) :
    r ≤ q * 2 ^ e ∨ ((q : Int) + 1) * 2 ^ e ≤ r := by
  obtain ⟨m, k, rfl, hm⟩ := h
  have hk : (0 : Int) < 2 ^ k := by positivity
  have he : (0 : Int) < 2 ^ e := by positivity
  rcases Nat.lt_or_ge k e with hlt | hge
  · -- a finer multiple lies below, for its multiplier would be out of range
    left
    obtain ⟨d, rfl⟩ : ∃ d, e = k + (d + 1) := ⟨e - k - 1, by omega⟩
    have hd : (1 : Int) ≤ 2 ^ d := one_le_pow₀ (by norm_num)
    have hq' : (2 : Int) ^ bits ≤ 2 * q := by exact_mod_cast hq
    have hm' : m ≤ 2 ^ bits := by
      have : (m.natAbs : Int) < 2 ^ bits := by exact_mod_cast hm
      omega
    have hmq : m ≤ q * 2 ^ (d + 1) := by
      calc m ≤ 2 * q := le_trans hm' hq'
        _ ≤ 2 * q * 2 ^ d := le_mul_of_one_le_right (by omega) hd
        _ = q * 2 ^ (d + 1) := by ring
    calc m * 2 ^ k ≤ q * 2 ^ (d + 1) * 2 ^ k := Int.mul_le_mul_of_nonneg_right hmq hk.le
      _ = q * 2 ^ (k + (d + 1)) := by ring
  · obtain ⟨d, rfl⟩ : ∃ d, k = e + d := ⟨k - e, by omega⟩
    have hsplit : m * 2 ^ (e + d) = m * 2 ^ d * 2 ^ e := by ring
    rw [hsplit]
    rcases lt_or_ge (q : Int) (m * 2 ^ d) with hlt | hge
    · exact Or.inr (Int.mul_le_mul_of_nonneg_right (by omega) he.le)
    · exact Or.inl (Int.mul_le_mul_of_nonneg_right hge he.le)

/-- An odd multiple of a power of two needs all bits of its multiplier. -/
theorem Significant.lt_of_odd {q e : Nat} (h : Significant bits (q * 2 ^ e)) (hq : Odd q) :
    q < 2 ^ bits := by
  obtain ⟨m, k, heq, hm⟩ := h
  rcases Nat.lt_or_ge e k with hlt | hge
  · obtain ⟨d, rfl⟩ : ∃ d, k = e + (d + 1) := ⟨k - e - 1, by omega⟩
    have hq' : (q : Int) = 2 * (m * 2 ^ d) := by
      apply mul_right_cancel₀ (show (2 : Int) ^ e ≠ 0 by positivity)
      rw [heq]
      ring
    obtain ⟨j, rfl⟩ := hq
    omega
  · obtain ⟨d, rfl⟩ : ∃ d, e = k + d := ⟨e - k, by omega⟩
    have hm' : (q : Int) * 2 ^ d = m := by
      apply mul_right_cancel₀ (show (2 : Int) ^ k ≠ 0 by positivity)
      rw [← heq]
      ring
    have hnat : q * 2 ^ d = m.natAbs := by
      rw [← hm', Int.natAbs_mul, Int.natAbs_pow]
      rfl
    calc q ≤ q * 2 ^ d := Nat.le_mul_of_pos_right q (by positivity)
      _ = m.natAbs := hnat
      _ < 2 ^ bits := hm

/-- Between two numbers that can do with a bit less, but for two consecutive ones, there is another
number. -/
theorem exists_significant_between {m m' : Int} {e e' : Nat} (hm : m.natAbs < 2 ^ bits)
    (he : e ≤ e') (hlt : m * 2 ^ e < m' * 2 ^ e') (hmid : m * 2 ^ e + m' * 2 ^ e' = 2 * n) :
    ∃ x, Significant (bits + 1) x ∧ m * 2 ^ e < x ∧ x < m' * 2 ^ e' := by
  have hpow : 2 ^ (bits + 1) = 2 * 2 ^ bits := pow_succ' 2 bits
  cases e with
  | zero =>
    rw [pow_zero, mul_one] at hlt hmid ⊢
    refine ⟨m + 1, ⟨m + 1, 0, by ring, ?_⟩, ?_, ?_⟩ <;> omega
  | succ e =>
    obtain ⟨d, rfl⟩ : ∃ d, e' = e + 1 + d := ⟨e' - (e + 1), by omega⟩
    have hpos : (0 : Int) < 2 ^ e := by positivity
    have hlow : m * 2 ^ (e + 1) = 2 * m * 2 ^ e := by ring
    have hhigh : m' * 2 ^ (e + 1 + d) = 2 * (m' * 2 ^ d) * 2 ^ e := by ring
    rw [hlow, hhigh] at hlt ⊢
    have hstep : 2 * m < 2 * (m' * 2 ^ d) := lt_of_mul_lt_mul_right hlt hpos.le
    refine ⟨(2 * m + 1) * 2 ^ e, ⟨2 * m + 1, e, rfl, by omega⟩, ?_, ?_⟩
    · exact mul_lt_mul_of_pos_right (by omega) hpos
    · exact mul_lt_mul_of_pos_right (by omega) hpos

namespace IsRounding

theorem neg (h : IsRounding bits n r) : IsRounding bits (-n) (-r) where
  significant := h.significant.neg
  nearest r' hr' := by
    have := h.nearest (-r') hr'.neg
    omega
  even r' hr' hne hdist := by
    have := h.even (-r') hr'.neg (by omega) (by omega)
    exact this.neg

/-- A number with so few bits stays as it is. -/
theorem eq_of_significant (h : IsRounding bits n r) (hn : Significant bits n) : r = n := by
  have := h.nearest n hn
  omega

theorem not_lt (h : IsRounding (bits + 1) n r) (h' : IsRounding (bits + 1) n r') : ¬ r < r' := by
  intro hlt
  have hle := h.nearest r' h'.significant
  have hle' := h'.nearest r h.significant
  have hmid : r + r' = 2 * n := by omega
  -- both are even, so that a number between them would be nearer
  obtain ⟨m, e, rfl, hm⟩ := h.even r' h'.significant (by omega) (by omega)
  obtain ⟨m', e', rfl, hm'⟩ := h'.even _ h.significant (by omega) (by omega)
  rw [Nat.add_sub_cancel] at hm hm'
  have hbetween : ∃ x, Significant (bits + 1) x ∧ m * 2 ^ e < x ∧ x < m' * 2 ^ e' := by
    rcases Nat.le_total e e' with he | he
    · exact exists_significant_between hm he hlt hmid
    · have hneg : (-m').natAbs < 2 ^ bits := by omega
      have hltneg : -m' * 2 ^ e' < -m * 2 ^ e := by linarith
      have hmidneg : -m' * 2 ^ e' + -m * 2 ^ e = 2 * -n := by linarith
      obtain ⟨x, hx, hlow, hhigh⟩ := exists_significant_between hneg he hltneg hmidneg
      exact ⟨-x, hx.neg, by linarith, by linarith⟩
  obtain ⟨x, hx, hlow, hhigh⟩ := hbetween
  have hnearest := h.nearest x hx
  omega

/-- There is at most one rounding of a number. -/
theorem unique (h : IsRounding (bits + 1) n r) (h' : IsRounding (bits + 1) n r') : r = r' := by
  have := h.not_lt h'
  have := h'.not_lt h
  omega

/-- Rounding keeps the order. -/
theorem mono (h : IsRounding (bits + 1) n r) (h' : IsRounding (bits + 1) n' r') (hn : n ≤ n') :
    r ≤ r' := by
  rcases hn.lt_or_eq with hlt | rfl
  · have hle := h.nearest r' h'.significant
    have hle' := h'.nearest r h.significant
    omega
  · exact (h.unique h').le

/-- A power of two is reached from half a unit below it: there the lower neighbour has an odd
significand. -/
theorem two_pow_le_iff (h : IsRounding (bits + 1) n r) (hbits : 0 < bits) (k : Nat) :
    2 ^ (bits + 1 + (k + 1)) ≤ r ↔ 2 ^ (bits + 1 + (k + 1)) - 2 ^ k ≤ n := by
  have hone : 1 ≤ 2 ^ bits := Nat.one_le_two_pow
  have hhalf : 2 ^ (bits + 1) = 2 * 2 ^ bits := pow_succ' 2 bits
  obtain ⟨q, hq⟩ : ∃ q, 2 ^ (bits + 1) = q + 1 := ⟨2 ^ (bits + 1) - 1, by omega⟩
  have hu : (0 : Int) < 2 ^ k := by positivity
  have htop : (2 : Int) ^ (bits + 1 + (k + 1)) = (q + 1) * 2 ^ (k + 1) := by
    rw [pow_add]
    exact congrArg (· * (2 : Int) ^ (k + 1)) (by exact_mod_cast hq)
  have hbelow : (q : Int) * 2 ^ (k + 1) = 2 ^ (bits + 1 + (k + 1)) - 2 * 2 ^ k := by
    rw [htop]
    ring
  have hsig : Significant (bits + 1) (q * 2 ^ (k + 1)) := significant_mul (by omega) (by omega)
  have hsigtop : Significant (bits + 1) (2 ^ (bits + 1 + (k + 1))) := by
    rw [htop]
    exact_mod_cast significant_mul (m := q + 1) (by omega) (by omega)
  constructor
  · intro hr
    have hnear := h.nearest _ hsig
    rw [hbelow] at hnear
    omega
  · intro hn
    by_contra hr
    have hnear := h.nearest _ hsigtop
    rcases h.significant.le_or_le (e := k + 1) (show 2 ^ (bits + 1) ≤ 2 * q by omega) with hle | hge
    · rw [hbelow] at hle
      have heq : r = q * 2 ^ (k + 1) := by
        rw [hbelow]
        omega
      have heven := h.even _ hsigtop (by omega) (by omega)
      rw [heq] at heven
      have hodd : Odd q := ⟨2 ^ bits - 1, by omega⟩
      have hlt := heven.lt_of_odd hodd
      rw [Nat.add_sub_cancel] at hlt
      omega
    · rw [← htop] at hge
      exact hr hge

end IsRounding

variable {n : Nat}

theorem roundToBits_eq_self (h : n < 2 ^ (bits + 1)) : roundToBits (bits + 1) n = n := by
  have hlog : n.log2 < bits + 1 := by
    rcases Nat.eq_zero_or_pos n with rfl | hpos
    · exact Nat.succ_pos bits
    · exact (Nat.log2_lt hpos.ne').mpr h
  have hshift : n.log2 + 1 - (bits + 1) = 0 := by omega
  simp [roundToBits, hshift, Nat.mod_one]

/-- A number with too many bits is cut at a place behind as many as it may have, and what is cut off
decides between the two neighbours. -/
theorem exists_roundToBits_eq (h : 2 ^ (bits + 1) ≤ n) :
    ∃ q e low m, n = q * 2 ^ (e + 1) + low ∧ low < 2 ^ (e + 1) ∧
      2 ^ bits ≤ q ∧ q < 2 ^ (bits + 1) ∧ roundToBits (bits + 1) n = m * 2 ^ (e + 1) ∧
      (m = q ∧ low ≤ 2 ^ e ∨ m = q + 1 ∧ 2 ^ e ≤ low) ∧ (low = 2 ^ e → m % 2 = 0) := by
  have hn : n ≠ 0 := by
    have : 0 < 2 ^ (bits + 1) := by positivity
    omega
  have hlog : bits + 1 ≤ n.log2 := (Nat.le_log2 hn).mpr h
  obtain ⟨e, he⟩ : ∃ e, n.log2 = bits + (e + 1) := ⟨n.log2 - bits - 1, by omega⟩
  have hbelow := Nat.log2_self_le hn
  have habove := Nat.lt_log2_self (n := n)
  rw [he] at hbelow habove
  have hpos : 0 < 2 ^ (e + 1) := by positivity
  have hshift : n.log2 + 1 - (bits + 1) = e + 1 := by omega
  have hdouble : 2 ^ (e + 1) = 2 * 2 ^ e := pow_succ' 2 e
  have hround : roundToBits (bits + 1) n =
      (if 2 ^ (e + 1) < 2 * (n % 2 ^ (e + 1)) ∨ 2 ^ (e + 1) = 2 * (n % 2 ^ (e + 1)) ∧
        n / 2 ^ (e + 1) % 2 = 1 then n / 2 ^ (e + 1) + 1 else n / 2 ^ (e + 1)) * 2 ^ (e + 1) := by
    simp only [roundToBits, hshift, Nat.one_shiftLeft]
  refine ⟨n / 2 ^ (e + 1), e, n % 2 ^ (e + 1), _, ?_, Nat.mod_lt n hpos, ?_, ?_, hround, ?_, ?_⟩
  · rw [mul_comm, Nat.div_add_mod]
  · rw [Nat.le_div_iff_mul_le hpos, ← pow_add]
    exact hbelow
  · rw [Nat.div_lt_iff_lt_mul hpos, ← pow_add]
    exact lt_of_lt_of_eq habove (by ring)
  · split <;> omega
  · intro htie
    split <;> omega

theorem isRounding_roundToBits (hbits : 0 < bits) (n : Nat) :
    IsRounding (bits + 1) n (roundToBits (bits + 1) n) := by
  rcases Nat.lt_or_ge n (2 ^ (bits + 1)) with hlt | hge
  · rw [roundToBits_eq_self hlt]
    refine ⟨significant_of_natAbs_le (by omega) (by omega), by omega, ?_⟩
    intro x _ hne hdist
    omega
  · obtain ⟨q, e, low, m, hn, hlow, hq, hqlt, hround, hm, heven⟩ := exists_roundToBits_eq hge
    have hhalf : 2 ^ (bits + 1) = 2 * 2 ^ bits := pow_succ' 2 bits
    have hnext : (q + 1) * 2 ^ (e + 1) = q * 2 ^ (e + 1) + 2 * 2 ^ e := by ring
    have hnone : ∀ x, Significant (bits + 1) x →
        x ≤ (q * 2 ^ (e + 1) : Nat) ∨ ((q + 1) * 2 ^ (e + 1) : Nat) ≤ x := by
      intro x hx
      exact_mod_cast hx.le_or_le (e := e + 1) (show 2 ^ (bits + 1) ≤ 2 * q by omega)
    rw [hround]
    refine ⟨by exact_mod_cast significant_mul (by omega) (by omega), ?_, ?_⟩
    · intro x hx
      rcases hm with ⟨rfl, hle⟩ | ⟨rfl, hle⟩ <;> rcases hnone x hx with hx | hx <;> omega
    · intro x hx hne hdist
      have htie : low = 2 ^ e := by
        rcases hm with ⟨rfl, hle⟩ | ⟨rfl, hle⟩ <;> rcases hnone x hx with hx | hx <;> omega
      exact_mod_cast significant_mul_of_even hbits (by omega) (heven htie)

/-- Rounding moves a number by no more than half of what its last bit is worth. -/
theorem roundToBits_sub_le (n : Nat) :
    ((roundToBits (bits + 1) n : Int) - n).natAbs * 2 ^ (bits + 1) ≤ n := by
  rcases Nat.lt_or_ge n (2 ^ (bits + 1)) with hlt | hge
  · rw [roundToBits_eq_self hlt, sub_self]
    exact (Nat.zero_mul _).trans_le (Nat.zero_le n)
  · obtain ⟨q, e, low, m, hn, hlow, hq, -, hround, hm, -⟩ := exists_roundToBits_eq hge
    have hnext : (q + 1) * 2 ^ (e + 1) = q * 2 ^ (e + 1) + 2 * 2 ^ e := by ring
    have hdist : ((roundToBits (bits + 1) n : Int) - n).natAbs ≤ 2 ^ e := by
      rw [hround]
      rcases hm with ⟨rfl, hle⟩ | ⟨rfl, hle⟩ <;> omega
    calc ((roundToBits (bits + 1) n : Int) - n).natAbs * 2 ^ (bits + 1)
        ≤ 2 ^ e * 2 ^ (bits + 1) := Nat.mul_le_mul_right _ hdist
      _ = 2 ^ bits * 2 ^ (e + 1) := by ring
      _ ≤ q * 2 ^ (e + 1) := Nat.mul_le_mul_right _ hq
      _ ≤ n := by omega

end TokenWire

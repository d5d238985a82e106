import TokenWire.Address.Seeded
import TokenWire.Proofs.Checked

/-! Which seeds of addresses are refused for their length. -/

namespace TokenWire

variable {seed : String} {e : Error}

theorem length_utf8 (s : String) : (utf8 s).length = s.utf8ByteSize := rfl

theorem checkSeed_eq_error :
    checkSeed seed = .error e ↔ 32 < (utf8 seed).length ∧ e = .seedTooLong seed := by
  rw [checkSeed, maxSeedLength, ← length_utf8]
  split
  · next hlong =>
    rw [Except.error.injEq]
    constructor
    · rintro rfl
      exact ⟨hlong, rfl⟩
    · rintro ⟨-, rfl⟩
      rfl
  · next hshort => exact iff_of_false nofun fun h => hshort h.1

theorem checkSeed_eq_ok : checkSeed seed = .ok () ↔ (utf8 seed).length ≤ 32 := by
  rw [checkSeed, maxSeedLength, ← length_utf8]
  split
  · next hlong => exact iff_of_false nofun (Nat.not_le_of_gt hlong)
  · next hshort => exact iff_of_true rfl (Nat.le_of_not_gt hshort)

/-- An owner may be refused as well, but not as a seed. -/
theorem seededAddress_eq_seedTooLong {base owner : Key} {s : String} :
    seededAddress base seed owner = .error (.seedTooLong s) ↔
      s = seed ∧ 32 < (utf8 seed).length := by
  rw [seededAddress, Checked.bind_eq_error, checkSeed_eq_error]
  constructor
  · rintro (⟨hlong, hs⟩ | ⟨_, -, h⟩)
    · exact ⟨Error.seedTooLong.inj hs, hlong⟩
    · split at h <;> cases h
  · rintro ⟨rfl, hlong⟩
    exact Or.inl ⟨hlong, rfl⟩

theorem of_seededAddress_eq_ok {base owner k : Key} (h : seededAddress base seed owner = .ok k) :
    (utf8 seed).length ≤ 32 ∧ Sha256.hash (seededPreimage base seed owner) = k.bytes := by
  obtain ⟨_, hcheck, h⟩ := Checked.bind_eq_ok.mp h
  refine ⟨checkSeed_eq_ok.mp hcheck, ?_⟩
  split at h
  · cases h
  · cases h
    rfl

end TokenWire

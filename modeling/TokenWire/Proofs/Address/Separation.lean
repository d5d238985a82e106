import Mathlib.Data.List.Basic
import TokenWire.Asset.Address
import TokenWire.AssociatedToken
import TokenWire.Proofs.Address.Seeded
import TokenWire.Proofs.Layout.Reader

/-!
Addresses of different kinds. Seeds are hashed side by side, and still what was hashed tells where
an address comes from: its length tells the kind.
-/

namespace TokenWire

variable {k k' : Key} {bump : UInt8} {message message' : Bytes}

namespace Derivation

variable {d : Derivation}

theorem eq_candidate_of_search {n : Nat} (h : d.search n = some (k, bump)) :
    k = d.candidate bump := by
  induction n with
  | zero => cases h
  | succ n ih =>
    rw [search] at h
    split at h
    · exact ih h
    · cases h
      rfl

theorem find_eq_ok {found : Key × UInt8} : d.find = .ok found ↔ d.search 255 = some found := by
  unfold find
  cases d.search 255 with
  | none => exact iff_of_false nofun nofun
  | some found' => simp

theorem hash_preimage_of_find (h : d.find = .ok (k, bump)) :
    Sha256.hash (d.preimage bump) = k.bytes := by
  rw [eq_candidate_of_search (find_eq_ok.mp h), candidate]

/-- The bump, the program and the marker stand behind the seeds. -/
theorem exists_preimage (d : Derivation) (bump : UInt8) :
    ∃ tail, d.preimage bump = d.seeds.flatten ++ tail ∧ tail.length = 54 := by
  have hmarker : derivationMarker.length = 21 := by decide +kernel
  refine ⟨bump :: (d.program.bytes ++ derivationMarker), by simp [preimage], ?_⟩
  rw [List.length_cons, List.length_append, d.program.length_bytes, hmarker]

end Derivation

/-- The kinds of addresses, with what each is derived from. -/
inductive Origin where
  | metadata (mint : Key)
  | edition (mint : Key)
  | tokenRecord (mint token : Key)
  | associatedToken (wallet mint tokenProgram : Key)
  | seeded (base : Key) (seed : String) (owner : Key)

namespace Origin

/-- An address that is derived, and what is hashed for it. -/
inductive Yields : Origin → Key → Bytes → Prop
  | metadata {mint k : Key} {bump : UInt8} (h : (Asset.metadataDerivation mint).find = .ok (k, bump)) :
      Yields (.metadata mint) k ((Asset.metadataDerivation mint).preimage bump)
  | edition {mint k : Key} {bump : UInt8} (h : (Asset.editionDerivation mint).find = .ok (k, bump)) :
      Yields (.edition mint) k ((Asset.editionDerivation mint).preimage bump)
  | tokenRecord {mint token k : Key} {bump : UInt8}
      (h : (Asset.tokenRecordDerivation mint token).find = .ok (k, bump)) :
      Yields (.tokenRecord mint token) k ((Asset.tokenRecordDerivation mint token).preimage bump)
  | associatedToken {wallet mint tokenProgram k : Key} {bump : UInt8}
      (h : (AssociatedToken.derivation wallet mint tokenProgram).find = .ok (k, bump)) :
      Yields (.associatedToken wallet mint tokenProgram) k
        ((AssociatedToken.derivation wallet mint tokenProgram).preimage bump)
  | seeded {base owner k : Key} {seed : String} (h : seededAddress base seed owner = .ok k) :
      Yields (.seeded base seed owner) k (seededPreimage base seed owner)

/-- Where an address comes from, read off the seeds side by side: their length tells the kind. -/
def ofSeeds? (seeds : Bytes) : Option Origin :=
  match seeds.length with
  | 72 => do
    let (mint, _) ← Key.take? (seeds.drop 40)
    pure (.metadata mint)
  | 79 => do
    let (mint, _) ← Key.take? (seeds.drop 40)
    pure (.edition mint)
  | 116 => do
    let (mint, rest) ← Key.take? (seeds.drop 40)
    let (token, _) ← Key.take? (rest.drop 12)
    pure (.tokenRecord mint token)
  | 96 => do
    let (wallet, rest) ← Key.take? seeds
    let (tokenProgram, rest) ← Key.take? rest
    let (mint, _) ← Key.take? rest
    pure (.associatedToken wallet mint tokenProgram)
  | _ => none

/-- Where an address comes from, read off what was hashed: with a readable seed this is shorter. -/
def ofMessage? (message : Bytes) : Option Origin :=
  if message.length ≤ 96 then do
    let (base, rest) ← Key.take? message
    let seed ← fromUtf8? (rest.take (message.length - 64))
    let (owner, _) ← Key.take? (rest.drop (message.length - 64))
    pure (.seeded base seed owner)
  else ofSeeds? (message.take (message.length - 54))

theorem take?_drop_append {front : Bytes} {n : Nat} (h : front.length = n) (k : Key)
    (rest : Bytes) : Key.take? ((front ++ (k.bytes ++ rest)).drop n) = some (k, rest) := by
  rw [List.drop_left' h, Key.take?_bytes_append]

/-- The seeds with which the addresses of a mint start. -/
def mintFront : Bytes :=
  Asset.metadataSeed ++ Program.asset.bytes

theorem length_mintFront : mintFront.length = 40 := by
  decide +kernel

theorem length_editionSeed : Asset.editionSeed.length = 7 := by
  decide +kernel

theorem length_tokenRecordSeed : Asset.tokenRecordSeed.length = 12 := by
  decide +kernel

theorem ofSeeds?_metadata (mint : Key) :
    ofSeeds? (Asset.metadataDerivation mint).seeds.flatten = some (.metadata mint) := by
  have hseeds : (Asset.metadataDerivation mint).seeds.flatten = mintFront ++ (mint.bytes ++ []) := by
    simp [Asset.metadataDerivation, mintFront]
  have hlength : (mintFront ++ (mint.bytes ++ [])).length = 72 := by
    simp [length_mintFront, mint.length_bytes]
  unfold ofSeeds?
  rw [hseeds, hlength]
  dsimp only
  rw [take?_drop_append length_mintFront]
  rfl

theorem ofSeeds?_edition (mint : Key) :
    ofSeeds? (Asset.editionDerivation mint).seeds.flatten = some (.edition mint) := by
  have hseeds : (Asset.editionDerivation mint).seeds.flatten =
      mintFront ++ (mint.bytes ++ Asset.editionSeed) := by
    simp [Asset.editionDerivation, mintFront]
  have hlength : (mintFront ++ (mint.bytes ++ Asset.editionSeed)).length = 79 := by
    simp [length_mintFront, mint.length_bytes, length_editionSeed]
  unfold ofSeeds?
  rw [hseeds, hlength]
  dsimp only
  rw [take?_drop_append length_mintFront]
  rfl

theorem ofSeeds?_tokenRecord (mint token : Key) :
    ofSeeds? (Asset.tokenRecordDerivation mint token).seeds.flatten =
      some (.tokenRecord mint token) := by
  have hseeds : (Asset.tokenRecordDerivation mint token).seeds.flatten =
      mintFront ++ (mint.bytes ++ (Asset.tokenRecordSeed ++ (token.bytes ++ []))) := by
    simp [Asset.tokenRecordDerivation, mintFront]
  have hlength : (mintFront ++ (mint.bytes ++
      (Asset.tokenRecordSeed ++ (token.bytes ++ [])))).length = 116 := by
    simp [length_mintFront, mint.length_bytes, token.length_bytes, length_tokenRecordSeed]
  unfold ofSeeds?
  rw [hseeds, hlength]
  dsimp only
  rw [take?_drop_append length_mintFront]
  dsimp only [Option.bind_eq_bind, Option.bind_some]
  rw [take?_drop_append length_tokenRecordSeed]
  rfl

theorem ofSeeds?_associatedToken (wallet mint tokenProgram : Key) :
    ofSeeds? (AssociatedToken.derivation wallet mint tokenProgram).seeds.flatten =
      some (.associatedToken wallet mint tokenProgram) := by
  have hseeds : (AssociatedToken.derivation wallet mint tokenProgram).seeds.flatten =
      wallet.bytes ++ (tokenProgram.bytes ++ (mint.bytes ++ [])) := by
    simp [AssociatedToken.derivation]
  have hlength : (wallet.bytes ++ (tokenProgram.bytes ++ (mint.bytes ++ []))).length = 96 := by
    simp [wallet.length_bytes, mint.length_bytes, tokenProgram.length_bytes]
  unfold ofSeeds?
  rw [hseeds, hlength]
  dsimp only
  simp only [Key.take?_bytes_append, Option.bind_eq_bind, Option.bind_some]
  rfl

variable {o o' : Origin}

theorem length_of_ofSeeds? {seeds : Bytes} (h : ofSeeds? seeds = some o) : 72 ≤ seeds.length := by
  unfold ofSeeds? at h
  split at h
  · omega
  · omega
  · omega
  · omega
  · cases h

/-- Derived addresses are told from their seeds, whatever the bump is. -/
theorem ofMessage?_preimage {d : Derivation} (h : ofSeeds? d.seeds.flatten = some o)
    (bump : UInt8) : ofMessage? (d.preimage bump) = some o := by
  have hlong := length_of_ofSeeds? h
  obtain ⟨tail, hmessage, htail⟩ := d.exists_preimage bump
  have hlength : (d.preimage bump).length = d.seeds.flatten.length + 54 := by
    rw [hmessage, List.length_append, htail]
  rw [ofMessage?, if_neg (by omega), hlength, Nat.add_sub_cancel, hmessage, List.take_left' rfl, h]

theorem ofMessage?_seeded {base owner : Key} {seed : String} (h : (utf8 seed).length ≤ 32) :
    ofMessage? (seededPreimage base seed owner) = some (.seeded base seed owner) := by
  have hlength : (seededPreimage base seed owner).length = 64 + (utf8 seed).length := by
    simp [seededPreimage, base.length_bytes, owner.length_bytes]
    omega
  have hmessage : seededPreimage base seed owner =
      base.bytes ++ (utf8 seed ++ (owner.bytes ++ [])) := by
    simp [seededPreimage]
  rw [ofMessage?, if_pos (by omega), hlength, Nat.add_sub_cancel_left, hmessage,
    Key.take?_bytes_append]
  dsimp only [Option.bind_eq_bind, Option.bind_some]
  rw [List.take_left' rfl, fromUtf8?_eq_some.mpr rfl, Option.bind_some, take?_drop_append rfl]
  rfl

/-- What is hashed tells where the address comes from. -/
theorem Yields.ofMessage?_eq (h : o.Yields k message) : ofMessage? message = some o := by
  cases h with
  | @metadata mint => exact ofMessage?_preimage (ofSeeds?_metadata mint) _
  | @edition mint => exact ofMessage?_preimage (ofSeeds?_edition mint) _
  | @tokenRecord mint token => exact ofMessage?_preimage (ofSeeds?_tokenRecord mint token) _
  | @associatedToken wallet mint tokenProgram =>
    exact ofMessage?_preimage (ofSeeds?_associatedToken wallet mint tokenProgram) _
  | seeded h => exact ofMessage?_seeded (of_seededAddress_eq_ok h).1

theorem Yields.hash_eq (h : o.Yields k message) : Sha256.hash message = k.bytes := by
  cases h with
  | metadata h => exact Derivation.hash_preimage_of_find h
  | edition h => exact Derivation.hash_preimage_of_find h
  | tokenRecord h => exact Derivation.hash_preimage_of_find h
  | associatedToken h => exact Derivation.hash_preimage_of_find h
  | seeded h => exact (of_seededAddress_eq_ok h).2

theorem Yields.unique (h : o.Yields k message) (h' : o'.Yields k' message) : o = o' := by
  have hread := h.ofMessage?_eq
  rw [h'.ofMessage?_eq] at hread
  exact (Option.some.inj hread).symm

theorem Yields.messages_ne (h : o.Yields k message) (h' : o'.Yields k' message') (hne : o ≠ o') :
    message ≠ message' := by
  rintro rfl
  exact hne (h.unique h')

/-- Two origins have two addresses, unless what is hashed for them collides. -/
theorem Yields.ne_or_collides (h : o.Yields k message) (h' : o'.Yields k' message')
    (hne : o ≠ o') : k ≠ k' ∨ message ≠ message' ∧ Sha256.hash message = Sha256.hash message' := by
  by_cases hk : k = k'
  · subst hk
    exact Or.inr ⟨h.messages_ne h' hne, h.hash_eq.trans h'.hash_eq.symm⟩
  · exact Or.inl hk

end Origin

/-- Two different messages among these have one hash. -/
def Collide (messages : List Bytes) : Prop :=
  ∃ m ∈ messages, ∃ m' ∈ messages, m ≠ m' ∧ Sha256.hash m = Sha256.hash m'

/-- An address with its origin and what is hashed for it. -/
structure Derived where
  origin : Origin
  key : Key
  message : Bytes
  yields : origin.Yields key message

theorem Derived.nodup_or_collide {ds : List Derived} (h : (ds.map Derived.origin).Nodup) :
    (ds.map Derived.key).Nodup ∨ Collide (ds.map Derived.message) := by
  by_cases hcollide : Collide (ds.map Derived.message)
  · exact Or.inr hcollide
  · left
    refine List.pairwise_map.mpr ((List.pairwise_map.mp h).imp_of_mem ?_)
    intro d d' hd hd' hne
    refine (d.yields.ne_or_collides d'.yields hne).resolve_right fun hboth => ?_
    exact hcollide ⟨_, List.mem_map_of_mem hd, _, List.mem_map_of_mem hd', hboth⟩

/--
An address is the hash of what was hashed for it, and this tells the kind of the address and all it
is derived from. So an address that comes from two origins shows two messages with one hash.
-/
theorem addresses_separated :
    (∀ (o : Origin) (k : Key) (message : Bytes), o.Yields k message →
      Sha256.hash message = k.bytes) ∧
    (∀ (o o' : Origin) (k k' : Key) (message : Bytes), o.Yields k message →
      o'.Yields k' message → o = o') ∧
    ∀ (o o' : Origin) (k : Key) (message message' : Bytes), o.Yields k message →
      o'.Yields k message' →
      o = o' ∨ message ≠ message' ∧ Sha256.hash message = Sha256.hash message' := by
  refine ⟨fun _ _ _ => Origin.Yields.hash_eq, fun _ _ _ _ _ => Origin.Yields.unique, ?_⟩
  intro o o' k message message' h h'
  by_cases hsame : message = message'
  · subst hsame
    exact Or.inl (h.unique h')
  · exact Or.inr ⟨hsame, h.hash_eq.trans h'.hash_eq.symm⟩

/-- The metadata of a mint, and what a readable seed gives under the key of the mint. -/
theorem addresses_separated_mint :
    let k : Key := ⟨List.replicate 32 7, rfl⟩
    let d := Asset.metadataDerivation k
    let message := seededPreimage k "é" Program.token
    let found : Key := ⟨Sha256.hash message, Sha256.length_hash message⟩
    (Origin.metadata k).Yields (d.candidate 255) (d.preimage 255) ∧
      (Origin.seeded k "é" Program.token).Yields found message ∧
      Sha256.hash (d.preimage 255) = (d.candidate 255).bytes ∧
      d.preimage 255 ≠ message ∧
      (Origin.metadata k = .metadata k ∨ d.preimage 255 ≠ d.preimage 255 ∧
        Sha256.hash (d.preimage 255) = Sha256.hash (d.preimage 255)) := by
  intro k d message found
  obtain ⟨hhash, hunique, hseparated⟩ := addresses_separated
  have hmetadata : (Origin.metadata k).Yields (d.candidate 255) (d.preimage 255) :=
    .metadata (by decide +kernel)
  have hseeded : (Origin.seeded k "é" Program.token).Yields found message :=
    .seeded (by decide +kernel)
  refine ⟨hmetadata, hseeded, hhash _ _ _ hmetadata, ?_, hseparated _ _ _ _ _ hmetadata hmetadata⟩
  intro hsame
  have horigin := hunique _ _ _ _ _ (hsame ▸ hmetadata) hseeded
  cases horigin

end TokenWire

/-! Byte strings: little-endian numbers, UTF-8 text, and a cut of exact length. -/

namespace TokenWire

/-- A byte string. -/
abbrev Bytes := List UInt8

/-- The low `width` bytes of a number, least significant first. -/
def littleEndian : Nat → Nat → Bytes
  | 0, _ => []
  | width + 1, n => UInt8.ofNat n :: littleEndian width (n / 256)

/-- How many numbers fit into so many bytes. -/
def capacity : Nat → Nat
  | 0 => 1
  | width + 1 => 256 * capacity width

/-- The number whose bytes these are, least significant first. -/
def fromLittleEndian : Bytes → Nat
  | [] => 0
  | b :: bs => b.toNat + 256 * fromLittleEndian bs

/-- The first `n` bytes and the rest, if there are so many. -/
def cut? : Nat → Bytes → Option (Bytes × Bytes)
  | 0, bs => some ([], bs)
  | _ + 1, [] => none
  | n + 1, b :: bs => (cut? n bs).map fun (front, rest) => (b :: front, rest)

/-- The UTF-8 form of a text. -/
def utf8 (s : String) : Bytes :=
  s.toUTF8.data.toList

/-- The text of which these bytes are the UTF-8 form. -/
def fromUtf8? (bs : Bytes) : Option String :=
  String.fromUTF8? ⟨bs.toArray⟩

theorem length_littleEndian (width n : Nat) : (littleEndian width n).length = width := by
  induction width generalizing n with
  | zero => rfl
  | succ width ih => simp [littleEndian, ih]

theorem capacity_pos (width : Nat) : 0 < capacity width := by
  induction width with
  | zero => decide
  | succ width ih => simp only [capacity]; omega

theorem fromLittleEndian_lt (bs : Bytes) : fromLittleEndian bs < capacity bs.length := by
  induction bs with
  | nil => decide
  | cons b bs ih =>
    have := b.toNat_lt
    simp only [fromLittleEndian, List.length_cons, capacity]
    omega

theorem fromLittleEndian_littleEndian {width n : Nat} (h : n < capacity width) :
    fromLittleEndian (littleEndian width n) = n := by
  induction width generalizing n with
  | zero => simp only [capacity] at h; simp [littleEndian, fromLittleEndian]; omega
  | succ width ih =>
    have hq : n / 256 < capacity width := by
      rw [capacity] at h
      omega
    simp only [littleEndian, fromLittleEndian, ih hq, UInt8.toNat_ofNat']
    omega

theorem littleEndian_fromLittleEndian (bs : Bytes) :
    littleEndian bs.length (fromLittleEndian bs) = bs := by
  induction bs with
  | nil => rfl
  | cons b bs ih =>
    have hb := b.toNat_lt
    have hq : (b.toNat + 256 * fromLittleEndian bs) / 256 = fromLittleEndian bs := by omega
    have hr : UInt8.ofNat (b.toNat + 256 * fromLittleEndian bs) = b := by
      apply UInt8.toNat_inj.mp
      rw [UInt8.toNat_ofNat']
      omega
    simp [littleEndian, fromLittleEndian, hq, hr, ih]

theorem cut?_eq (n : Nat) (bs : Bytes) :
    cut? n bs = if n ≤ bs.length then some (bs.take n, bs.drop n) else none := by
  induction n generalizing bs with
  | zero => simp [cut?]
  | succ n ih =>
    cases bs with
    | nil => simp [cut?]
    | cons b bs =>
      simp only [cut?, ih, List.length_cons, Nat.add_le_add_iff_right]
      split <;> simp

end TokenWire

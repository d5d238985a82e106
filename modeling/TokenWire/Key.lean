import TokenWire.Text.Base58

/-! Public keys: 32 bytes, written in base 58. -/

namespace TokenWire

/-- A public key. -/
structure Key where
  bytes : Bytes
  length_bytes : bytes.length = 32
deriving DecidableEq

/-- Why a text names no key. -/
inductive KeyFault where
  | wrongSize
  | notBase58
deriving DecidableEq, Repr

namespace Key

theorem ext_bytes {a b : Key} (h : a.bytes = b.bytes) : a = b := by
  cases a; cases b; cases h; rfl

/-- The key whose bytes are all zero, which stands for no key in some fields. -/
def zero : Key :=
  ⟨List.replicate 32 0, List.length_replicate⟩

/-- The key at the front of a byte string, and the bytes after it. -/
def take? (bs : Bytes) : Option (Key × Bytes) :=
  if h : 32 ≤ bs.length then some (⟨bs.take 32, List.length_take_of_le h⟩, bs.drop 32) else none

/-- The base 58 text of a key. -/
def text (k : Key) : String :=
  Base58.encode k.bytes

/-- The longest text of a key, in bytes. -/
def maxTextLength : Nat := 44

/-- The key named by a base 58 text. -/
def ofText (s : String) : Except KeyFault Key :=
  if s.utf8ByteSize > maxTextLength then .error .wrongSize
  else
    match Base58.decode? s with
    | none => .error .notBase58
    | some bs =>
      if h : bs.length = 32 then .ok ⟨bs, h⟩
      else if bs.length < 32 then .error .wrongSize
      else .error .notBase58

theorem take?_bytes_append (k : Key) (rest : Bytes) : take? (k.bytes ++ rest) = some (k, rest) := by
  have hk := k.length_bytes
  have hl : 32 ≤ (k.bytes ++ rest).length := by simp [hk]
  simp only [take?, hl, dite_true, Option.some.injEq, Prod.mk.injEq]
  exact ⟨ext_bytes (List.take_left' hk), List.drop_left' hk⟩

end Key
end TokenWire

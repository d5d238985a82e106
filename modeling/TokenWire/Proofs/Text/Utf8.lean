import Mathlib.Tactic.SplitIfs
import TokenWire.Bytes

/-! Texts in the order of their characters are in the order of their UTF-8 bytes. -/

namespace TokenWire

theorem utf8_eq (s : String) : utf8 s = s.toList.flatMap String.utf8EncodeChar := by
  conv => lhs; rw [← String.ofList_toList (s := s)]
  rw [utf8, String.toUTF8_eq_toByteArray]
  exact List.toList_data_toByteArray

theorem byte_lt {m n : Nat} (h : m < n) (hn : n < 256) (bs bs' : Bytes) :
    UInt8.ofNat m :: bs < UInt8.ofNat n :: bs' := by
  refine List.cons_lt_cons_iff.mpr (Or.inl ?_)
  rw [UInt8.lt_iff_toNat_lt, UInt8.toNat_ofNat', UInt8.toNat_ofNat']
  omega

/-- Of two numbers below the bound the lesser is written first, whatever follows each. -/
def Ascending (bound : Nat) (write : Nat → Bytes) : Prop :=
  ∀ m n, m < n → n < bound → ∀ bs bs', write m ++ bs < write n ++ bs'

theorem ascending_lead (bound lead : Nat) (h : bound + lead ≤ 256) :
    Ascending bound fun n => [UInt8.ofNat (n % bound + lead)] := by
  intro m n hmn hn
  dsimp only
  rw [Nat.mod_eq_of_lt hn, Nat.mod_eq_of_lt (Nat.lt_trans hmn hn)]
  exact byte_lt (by omega) (by omega)

/-- A further byte holds the last digit of base 64. -/
theorem Ascending.continued {bound : Nat} {write : Nat → Bytes} (h : Ascending bound write) :
    Ascending (bound * 64) fun n => write (n / 64) ++ [UInt8.ofNat (n % 64 + 0x80)] := by
  intro m n hmn hn bs bs'
  rw [List.append_assoc, List.append_assoc]
  by_cases hq : m / 64 < n / 64
  · exact h _ _ hq (by omega) _ _
  · have heq : m / 64 = n / 64 := by omega
    rw [heq]
    exact List.append_left_lt (byte_lt (by omega) (by omega) bs bs')

/-- The lesser of two characters is written first, whatever follows each. -/
theorem utf8EncodeChar_append_lt {c d : Char} (h : c < d) (bs bs' : Bytes) :
    String.utf8EncodeChar c ++ bs < String.utf8EncodeChar d ++ bs' := by
  have hlt : c.val.toNat < d.val.toNat := h
  have hd : d.val.toNat < 8 * 64 * 64 * 64 := by
    rcases d.valid with hd | hd
    · exact Nat.lt_trans hd (by decide)
    · exact Nat.lt_trans hd.2 (by decide)
  have htwo : Ascending (32 * 64) _ := (ascending_lead 32 0xc0 (by decide)).continued
  have hthree : Ascending (16 * 64 * 64) _ :=
    (ascending_lead 16 0xe0 (by decide)).continued.continued
  have hfour : Ascending (8 * 64 * 64 * 64) _ :=
    (ascending_lead 8 0xf0 (by decide)).continued.continued.continued
  simp only [Ascending, Nat.div_div_eq_div_mul] at htwo hthree hfour
  -- A longer form starts with a greater byte, and two forms of one length are in order.
  simp only [String.utf8EncodeChar]
  split_ifs <;>
    first
    | exact byte_lt (by omega) (by omega) _ _
    | exact htwo _ _ hlt (by omega) bs bs'
    | exact hthree _ _ hlt (by omega) bs bs'
    | exact hfour _ _ hlt hd bs bs'

theorem utf8_lt {s t : String} (h : s < t) : utf8 s < utf8 t := by
  rw [utf8_eq, utf8_eq]
  have hlex : List.Lex (· < ·) s.toList t.toList := h
  generalize s.toList = cs at hlex ⊢
  generalize t.toList = ds at hlex ⊢
  induction hlex with
  | @nil d ds =>
    rw [List.flatMap_nil, List.flatMap_cons]
    cases hd : String.utf8EncodeChar d with
    | nil => exact absurd hd String.utf8EncodeChar_ne_nil
    | cons b bs => exact List.nil_lt_cons b _
  | cons _ ih =>
    rw [List.flatMap_cons, List.flatMap_cons]
    exact List.append_left_lt ih
  | rel hlt =>
    rw [List.flatMap_cons, List.flatMap_cons]
    exact utf8EncodeChar_append_lt hlt _ _

end TokenWire

import TokenWire.Proofs.Layout.RoundTrip
import TokenWire.Token.Command

/-! How an instruction of the token program is read from its data. -/

namespace TokenWire.Token.Command

open Layout

/-- The instruction of a number, with these arguments. -/
def ofArgs : Nat → Value → Except Error Command
  | 0, .seq [.int decimals, .key mintAuthority, freezeAuthority] =>
    (freezeAuthority.asOption Value.asKey).map (.initializeMint decimals mintAuthority)
  | 7, .seq [.int amount] => .ok (.mintTo amount)
  | 9, .absent => .ok .closeAccount
  | 10, .absent => .ok .freezeAccount
  | 11, .absent => .ok .thawAccount
  | 20, .seq [.int decimals, .key mintAuthority, freezeAuthority] =>
    (freezeAuthority.asOption Value.asKey).map (.initializeMint2 decimals mintAuthority)
  | _, _ => .error .wrongShape

theorem shaped_mint (decimals : Int) (mintAuthority : Key) (freezeAuthority : Option Key) :
    mintLayout.Shaped
      (.seq [.int decimals, .key mintAuthority, .optional .key freezeAuthority]) :=
  .struct (.cons (.uint 1 decimals) (.cons (.key mintAuthority)
    (.cons (.optionKey freezeAuthority) .nil)))

theorem shaped_toValue (c : Command) : layout.Shaped c.toValue := by
  cases c with
  | initializeMint decimals mintAuthority freezeAuthority =>
    exact .known rfl (shaped_mint decimals mintAuthority freezeAuthority)
  | mintTo amount => exact .known rfl (.struct (.cons (.uint 8 amount) .nil))
  | closeAccount => exact .known rfl .unit
  | freezeAccount => exact .known rfl .unit
  | thawAccount => exact .known rfl .unit
  | initializeMint2 decimals mintAuthority freezeAuthority =>
    exact .known rfl (shaped_mint decimals mintAuthority freezeAuthority)

theorem normalize_toValue (c : Command) : layout.normalize c.toValue = c.toValue := by
  cases c with
  | initializeMint decimals mintAuthority freezeAuthority =>
    change Value.variant _ (.seq [_, _, normalize (.option .key) _]) = _
    rw [normalize_optionKey]
    rfl
  | initializeMint2 decimals mintAuthority freezeAuthority =>
    change Value.variant _ (.seq [_, _, normalize (.option .key) _]) = _
    rw [normalize_optionKey]
    rfl
  | _ => rfl

theorem parse_of_encode {c : Command} {data : Bytes} (h : c.encode = .ok data) :
    layout.parse data = .ok c.toValue := by
  rw [← normalize_toValue]
  exact c.shaped_toValue.parse_eq h

theorem ofArgs_args (c : Command) : ofArgs (Enumeration.tag c.kind) c.args = .ok c := by
  cases c with
  | initializeMint decimals mintAuthority freezeAuthority => cases freezeAuthority <;> rfl
  | initializeMint2 decimals mintAuthority freezeAuthority => cases freezeAuthority <;> rfl
  | _ => rfl

theorem toValue_inj {c c' : Command} (h : c.toValue = c'.toValue) : c = c' := by
  obtain ⟨htag, hargs⟩ := Value.variant.inj h
  have hc := c.ofArgs_args
  rw [htag, hargs, c'.ofArgs_args] at hc
  exact (Except.ok.inj hc).symm

end TokenWire.Token.Command

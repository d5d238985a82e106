import TokenWire.Extension.Command
import TokenWire.Proofs.Layout.RoundTrip

/-! How the initialization of an extension is read from its data. -/

namespace TokenWire.Extension.Command

open Layout

/-- An initialization as it is read back: where the zero key stands for no key, it is none. -/
def stored : Command → Command
  | interestBearing authority rate => .interestBearing (authority.filter (· ≠ .zero)) rate
  | transferHook authority program =>
    .transferHook (authority.filter (· ≠ .zero)) (program.filter (· ≠ .zero))
  | metadataPointer authority address =>
    .metadataPointer (authority.filter (· ≠ .zero)) (address.filter (· ≠ .zero))
  | c => c

/-- The initialization of a number, with these arguments. -/
def ofArgs : Nat → Value → Except Error Command
  | 25, .seq [authority] => (authority.asOption Value.asKey).map .closeAuthority
  | 26, .variant 0 (.seq [configAuthority, withdrawAuthority, .int basisPoints, .int maximum]) => do
    let configAuthority ← configAuthority.asOption Value.asKey
    let withdrawAuthority ← withdrawAuthority.asOption Value.asKey
    pure (.transferFee configAuthority withdrawAuthority basisPoints maximum)
  | 32, .absent => .ok .nonTransferable
  | 33, .variant 0 (.seq [authority, .int rate]) =>
    (authority.asOption Value.asKey).map (.interestBearing · rate)
  | 35, .seq [.key delegate] => .ok (.permanentDelegate delegate)
  | 36, .variant 0 (.seq [authority, program]) => do
    let authority ← authority.asOption Value.asKey
    let program ← program.asOption Value.asKey
    pure (.transferHook authority program)
  | 39, .variant 0 (.seq [authority, address]) => do
    let authority ← authority.asOption Value.asKey
    let address ← address.asOption Value.asKey
    pure (.metadataPointer authority address)
  | _, _ => .error .wrongShape

theorem shaped_toValue (c : Command) : layout.Shaped c.toValue := by
  cases c with
  | closeAuthority authority => exact .known rfl (.struct (.cons (.optionKey authority) .nil))
  | transferFee configAuthority withdrawAuthority basisPoints maximum =>
    exact .known rfl (.known rfl (.struct (.cons (.optionKey configAuthority)
      (.cons (.optionKey withdrawAuthority) (.cons (.uint 2 basisPoints)
        (.cons (.uint 8 maximum) .nil))))))
  | nonTransferable => exact .known rfl .unit
  | interestBearing authority rate =>
    exact .known rfl (.known rfl (.struct (.cons (.sentinelKey authority)
      (.cons (.sint 2 rate) .nil))))
  | permanentDelegate delegate => exact .known rfl (.struct (.cons (.key delegate) .nil))
  | transferHook authority program =>
    exact .known rfl (.known rfl (.struct (.cons (.sentinelKey authority)
      (.cons (.sentinelKey program) .nil))))
  | metadataPointer authority address =>
    exact .known rfl (.known rfl (.struct (.cons (.sentinelKey authority)
      (.cons (.sentinelKey address) .nil))))

theorem normalize_toValue (c : Command) : layout.normalize c.toValue = c.stored.toValue := by
  cases c with
  | closeAuthority authority =>
    change Value.variant _ (.seq [normalize (.option .key) _]) = _
    rw [normalize_optionKey]
    rfl
  | transferFee configAuthority withdrawAuthority basisPoints maximum =>
    change Value.variant _ (.variant _ (.seq [normalize (.option .key) _,
      normalize (.option .key) _, _, _])) = _
    rw [normalize_optionKey, normalize_optionKey]
    rfl
  | nonTransferable => rfl
  | interestBearing authority rate =>
    change Value.variant _ (.variant _ (.seq [normalize .sentinelKey _, _])) = _
    rw [normalize_sentinelKey]
    rfl
  | permanentDelegate delegate => rfl
  | transferHook authority program =>
    change Value.variant _ (.variant _ (.seq [normalize .sentinelKey _,
      normalize .sentinelKey _])) = _
    rw [normalize_sentinelKey, normalize_sentinelKey]
    rfl
  | metadataPointer authority address =>
    change Value.variant _ (.variant _ (.seq [normalize .sentinelKey _,
      normalize .sentinelKey _])) = _
    rw [normalize_sentinelKey, normalize_sentinelKey]
    rfl

theorem parse_of_encode {c : Command} {data : Bytes} (h : c.encode = .ok data) :
    layout.parse data = .ok c.stored.toValue := by
  rw [← normalize_toValue]
  exact c.shaped_toValue.parse_eq h

theorem ofArgs_args (c : Command) : ofArgs (Enumeration.tag c.kind) c.args = .ok c := by
  cases c with
  | closeAuthority authority => cases authority <;> rfl
  | transferFee configAuthority withdrawAuthority basisPoints maximum =>
    cases configAuthority <;> cases withdrawAuthority <;> rfl
  | nonTransferable => rfl
  | interestBearing authority rate => cases authority <;> rfl
  | permanentDelegate delegate => rfl
  | transferHook authority program => cases authority <;> cases program <;> rfl
  | metadataPointer authority address => cases authority <;> cases address <;> rfl

theorem toValue_inj {c c' : Command} (h : c.toValue = c'.toValue) : c = c' := by
  obtain ⟨htag, hargs⟩ := Value.variant.inj h
  have hc := c.ofArgs_args
  rw [htag, hargs, c'.ofArgs_args] at hc
  exact (Except.ok.inj hc).symm

end TokenWire.Extension.Command

import TokenWire.Account.Role
import TokenWire.Account.Slots
import TokenWire.Address.Derived
import TokenWire.Address.Seeded
import TokenWire.Asset.Action
import TokenWire.Asset.Address
import TokenWire.Asset.Attribute
import TokenWire.Asset.Authorization
import TokenWire.Asset.Command
import TokenWire.Asset.CreateArgs
import TokenWire.Asset.CreateBuilder
import TokenWire.Asset.Data
import TokenWire.Asset.UpdateArgs
import TokenWire.Asset.UpdateBuilder
import TokenWire.AssociatedToken
import TokenWire.Bytes
import TokenWire.ComputeBudget
import TokenWire.Curve.Edwards
import TokenWire.Entries
import TokenWire.Enumeration
import TokenWire.Error
import TokenWire.Event
import TokenWire.Extension.Command
import TokenWire.Extension.Descriptor
import TokenWire.Extension.Fields
import TokenWire.Extension.Instruction
import TokenWire.Extension.Kind
import TokenWire.Extension.Plan
import TokenWire.Extension.Request
import TokenWire.Extension.Size
import TokenWire.Hash.Sha256
import TokenWire.Instruction
import TokenWire.Key
import TokenWire.Layout.Basic
import TokenWire.Layout.Codec
import TokenWire.Layout.Decode
import TokenWire.Layout.Encode
import TokenWire.Layout.Fault
import TokenWire.Memo
import TokenWire.Metadata.Command
import TokenWire.Metadata.Instruction
import TokenWire.Metadata.State
import TokenWire.Program
import TokenWire.Proofs.Account.Role
import TokenWire.Proofs.Account.Slots
import TokenWire.Proofs.Account.Staging
import TokenWire.Proofs.Address.Seeded
import TokenWire.Proofs.Address.Separation
import TokenWire.Proofs.Address.Text
import TokenWire.Proofs.Asset.Action
import TokenWire.Proofs.Asset.Attribute
import TokenWire.Proofs.Asset.Authorization
import TokenWire.Proofs.Asset.Canonical
import TokenWire.Proofs.Asset.CreateArgs
import TokenWire.Proofs.Asset.Data
import TokenWire.Proofs.Asset.Outcome
import TokenWire.Proofs.Asset.Staging
import TokenWire.Proofs.Asset.UpdateArgs
import TokenWire.Proofs.AssociatedToken
import TokenWire.Proofs.Checked
import TokenWire.Proofs.ComputeBudget
import TokenWire.Proofs.Distinct
import TokenWire.Proofs.Entries
import TokenWire.Proofs.Extension.Address
import TokenWire.Proofs.Extension.Asking
import TokenWire.Proofs.Extension.Command
import TokenWire.Proofs.Extension.Creation
import TokenWire.Proofs.Extension.Emission
import TokenWire.Proofs.Extension.Failures
import TokenWire.Proofs.Extension.Fields
import TokenWire.Proofs.Extension.Nulls
import TokenWire.Proofs.Extension.Plan
import TokenWire.Proofs.Extension.Range
import TokenWire.Proofs.Extension.Reordering
import TokenWire.Proofs.Extension.Request
import TokenWire.Proofs.Instruction
import TokenWire.Proofs.Key
import TokenWire.Proofs.Layout.Canonical
import TokenWire.Proofs.Layout.Everywhere
import TokenWire.Proofs.Layout.Garbled
import TokenWire.Proofs.Layout.Leaves
import TokenWire.Proofs.Layout.Length
import TokenWire.Proofs.Layout.Numbered
import TokenWire.Proofs.Layout.Partition
import TokenWire.Proofs.Layout.Parts
import TokenWire.Proofs.Layout.Payload
import TokenWire.Proofs.Layout.Reader
import TokenWire.Proofs.Layout.RoundTrip
import TokenWire.Proofs.Layout.Shape
import TokenWire.Proofs.Layout.Strictness
import TokenWire.Proofs.Layout.Typed
import TokenWire.Proofs.Layout.Writable
import TokenWire.Proofs.Layout.Writing
import TokenWire.Proofs.Logged
import TokenWire.Proofs.Metadata.Command
import TokenWire.Proofs.Metadata.Replay
import TokenWire.Proofs.Metadata.Size
import TokenWire.Proofs.Metadata.State
import TokenWire.Proofs.Partition
import TokenWire.Proofs.Range
import TokenWire.Proofs.Refusal
import TokenWire.Proofs.Rent
import TokenWire.Proofs.Rounding
import TokenWire.Proofs.SystemProgram.Call
import TokenWire.Proofs.SystemProgram.Command
import TokenWire.Proofs.Text.Base58
import TokenWire.Proofs.Text.Utf8
import TokenWire.Proofs.Token.Call
import TokenWire.Proofs.Token.Command
import TokenWire.Proofs.Token.Signers
import TokenWire.Proofs.Traversal
import TokenWire.Proofs.Value
import TokenWire.Rent
import TokenWire.SystemProgram.Command
import TokenWire.SystemProgram.Instruction
import TokenWire.Text.Base58
import TokenWire.Text.Quoted
import TokenWire.Toggle
import TokenWire.Token.Command
import TokenWire.Token.Instruction

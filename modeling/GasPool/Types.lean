import Mathlib.Data.BitVec
import Mathlib.Data.List.Basic

/-!
# The gas pool's data model

The values the pool core (`gas_pool_core.rs`) and its chain client (`sui_client.rs`) pass
around: object references, `GasCoin`, the parts of `TransactionData` the core reads, and the
parts of the execution effects it reads.

Object ids, versions, digests and addresses are opaque to the core: it only compares them, so
they are natural numbers here. Rust's `u64` and `i64` are both `BitVec 64`; an `as` cast
between them keeps the bits, and `BitVec.toInt` reads an `i64`.
-/

namespace GasPool

/-- `sui_types::base_types::ObjectID`. -/
abbrev ObjectID := ℕ

/-- `sui_types::base_types::SequenceNumber`, the object version. -/
abbrev SequenceNumber := ℕ

/-- `sui_types::digests::ObjectDigest`. -/
abbrev ObjectDigest := ℕ

/-- `sui_types::base_types::SuiAddress`. -/
abbrev SuiAddress := ℕ

/-- `crate::types::ReservationID`. -/
abbrev ReservationID := ℕ

/-- `ObjectRef = (ObjectID, SequenceNumber, ObjectDigest)`. -/
abbrev ObjectRef := ObjectID × SequenceNumber × ObjectDigest

/-- Rust `u64`. -/
abbrev U64 := BitVec 64

/-- Rust `i64`, in two's complement. -/
abbrev I64 := BitVec 64

/-- `crate::types::GasCoin`. -/
structure GasCoin where
  owner : SuiAddress
  objectRef : ObjectRef
  balance : U64
deriving DecidableEq, Repr

/-- The coin's object id, `object_ref.0`. -/
def GasCoin.id (c : GasCoin) : ObjectID := c.objectRef.1

/-- The coin's version, `object_ref.1`. -/
def GasCoin.version (c : GasCoin) : SequenceNumber := c.objectRef.2.1

/-- The object ids of a list of coins. -/
def ids (coins : List GasCoin) : List ObjectID := coins.map GasCoin.id

@[simp] theorem ids_nil : ids [] = [] := rfl

@[simp] theorem ids_cons (c : GasCoin) (cs : List GasCoin) : ids (c :: cs) = c.id :: ids cs := rfl

@[simp] theorem ids_append (cs ds : List GasCoin) : ids (cs ++ ds) = ids cs ++ ids ds :=
  List.map_append _ _ _

theorem mem_ids {cs : List GasCoin} {x : ObjectID} : x ∈ ids cs ↔ ∃ c ∈ cs, c.id = x :=
  List.mem_map

/-! ## Transaction data -/

/-- `sui_types::transaction::Argument`. -/
inductive Argument
  | gasCoin
  | input (i : UInt16)
  | result (i : UInt16)
  | nestedResult (i j : UInt16)
deriving DecidableEq, Repr

/-- `ProgrammableMoveCall`; of its fields only `arguments` is read. -/
structure ProgrammableMoveCall where
  arguments : List Argument
deriving DecidableEq, Repr

/-- `sui_types::transaction::Command`, with the `Argument` operands of each command. The
package bytes, dependency ids and type tags of `Publish`, `MakeMoveVec` and `Upgrade` are
never read by the pool and are left out. -/
inductive Command
  | moveCall (call : ProgrammableMoveCall)
  | transferObjects (objects : List Argument) (recipient : Argument)
  | splitCoins (coin : Argument) (amounts : List Argument)
  | mergeCoins (target : Argument) (sources : List Argument)
  | publish
  | makeMoveVec (elements : List Argument)
  | upgrade (ticket : Argument)
deriving DecidableEq, Repr

/-- `TransactionKind`: a programmable transaction, or one of the system kinds, which carry
no commands. -/
inductive TransactionKind
  | programmableTransaction (commands : List Command)
  | system
deriving DecidableEq, Repr

/-- `TransactionKind::iter_commands`. -/
def TransactionKind.iterCommands : TransactionKind → List Command
  | .programmableTransaction commands => commands
  | .system => []

/-- `GasData`; the price and budget are read only by the chain. -/
structure GasData where
  payment : List ObjectRef
  owner : SuiAddress
deriving DecidableEq, Repr

/-- `TransactionData`; the sender and expiration are not read by the pool. -/
structure TransactionData where
  kind : TransactionKind
  gasData : GasData
deriving DecidableEq, Repr

/-- `payment.iter().map(|oref| oref.0)`: the ids of the payment coins
(`gas_pool_core.rs:106-111`). -/
def TransactionData.paymentIds (tx : TransactionData) : List ObjectID :=
  tx.gasData.payment.map (·.1)

/-- The parts of `SuiTransactionBlockEffects` the pool reads: `gas_object().reference` and
`gas_cost_summary().net_gas_usage()`. -/
structure Effects where
  gasObject : ObjectRef
  netGasUsage : I64
deriving DecidableEq, Repr

end GasPool

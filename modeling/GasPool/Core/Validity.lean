import GasPool.Types

/-!
# `check_transaction_validity`

`GasPool::check_transaction_validity` (`gas_pool_core.rs:247-278`) rejects a transaction that
passes the gas coin to a command. It collects, command by command, the operands that can hold
a coin object (the call arguments, the transferred objects, the coin being split, the target
and sources of a merge, the vector elements) and fails when one of them is
`Argument::GasCoin`. The recipient of a transfer, the split amounts and the upgrade ticket are
matched by `_` and never looked at.

`checkTransactionValidity_eq` states the check exactly, position by position, over every
command list; `checkTransactionValidity_accepts_gas_recipient` shows that the gas coin passed
as a transfer recipient, an operand of the command, is accepted.
-/

namespace GasPool

/-- The arguments `check_transaction_validity` collects from one command
(`gas_pool_core.rs:250-269`). -/
def Command.collectedArgs : Command → List Argument
  | .moveCall call => call.arguments
  | .transferObjects args _ => args
  | .splitCoins arg _ => [arg]
  | .mergeCoins arg args => arg :: args
  | .publish => []
  | .makeMoveVec args => args
  | .upgrade _ => []

/-- The error text of `bail!("Gas coin can only be used to pay gas")`. -/
def gasCoinMisuse : String := "Gas coin can only be used to pay gas"

/-- `GasPool::check_transaction_validity` (`gas_pool_core.rs:247-278`). -/
def checkTransactionValidity (txData : TransactionData) : Except String Unit :=
  let allArgs := txData.kind.iterCommands.flatMap Command.collectedArgs
  let usesGas := allArgs.any (· == .gasCoin)
  if usesGas then .error gasCoinMisuse else .ok ()

/-- Every `Argument` operand of a command, in every position. -/
def Command.operands : Command → List Argument
  | .moveCall call => call.arguments
  | .transferObjects objects recipient => objects ++ [recipient]
  | .splitCoins coin amounts => coin :: amounts
  | .mergeCoins target sources => target :: sources
  | .publish => []
  | .makeMoveVec elements => elements
  | .upgrade ticket => [ticket]

/-- The positions the check inspects: the gas coin passed as a call argument, a transferred
object, the coin being split, the target or a source of a merge, or a vector element. -/
def Command.passesGasCoin : Command → Prop
  | .moveCall call => .gasCoin ∈ call.arguments
  | .transferObjects objects _ => .gasCoin ∈ objects
  | .splitCoins coin _ => coin = .gasCoin
  | .mergeCoins target sources => target = .gasCoin ∨ .gasCoin ∈ sources
  | .publish => False
  | .makeMoveVec elements => .gasCoin ∈ elements
  | .upgrade _ => False

instance : DecidablePred Command.passesGasCoin := fun cmd => by
  cases cmd <;> unfold Command.passesGasCoin <;> infer_instance

theorem Command.gasCoin_mem_collectedArgs (cmd : Command) :
    .gasCoin ∈ cmd.collectedArgs ↔ cmd.passesGasCoin := by
  cases cmd <;> simp [Command.collectedArgs, Command.passesGasCoin, eq_comm]

/-- The check fails, with its one message, exactly when some command passes the gas coin in
an inspected position. -/
theorem checkTransactionValidity_eq (txData : TransactionData) :
    checkTransactionValidity txData =
      if ∃ cmd ∈ txData.kind.iterCommands, cmd.passesGasCoin then .error gasCoinMisuse
      else .ok () := by
  have key : (txData.kind.iterCommands.flatMap Command.collectedArgs).any (· == .gasCoin) ↔
      ∃ cmd ∈ txData.kind.iterCommands, cmd.passesGasCoin := by
    simp only [List.any_eq_true, List.mem_flatMap, beq_iff_eq,
      ← Command.gasCoin_mem_collectedArgs]
    constructor
    · rintro ⟨_, ⟨cmd, h, ha⟩, rfl⟩
      exact ⟨cmd, h, ha⟩
    · rintro ⟨cmd, h, ha⟩
      exact ⟨_, ⟨cmd, h, ha⟩, rfl⟩
  simp only [checkTransactionValidity]
  split_ifs with h₁ h₂ h₂ <;> first | rfl | exact absurd (key.1 h₁) h₂ | exact absurd (key.2 h₂) h₁

/-- The gas coin as the recipient of a transfer is an operand the check does not inspect. -/
theorem checkTransactionValidity_accepts_gas_recipient :
    let txData : TransactionData :=
      ⟨.programmableTransaction [.transferObjects [] .gasCoin], ⟨[], 0⟩⟩
    (∃ cmd ∈ txData.kind.iterCommands, .gasCoin ∈ cmd.operands) ∧
      checkTransactionValidity txData = .ok () :=
  ⟨by decide, rfl⟩

end GasPool

import GasPool.SuiClient.LatestObjects
import Mathlib.Algebra.BigOperators.Group.List
import Mathlib.Algebra.Order.Ring.Nat

/-!
# The coins `execute_transaction` gives back

After the transaction ran, `execute_transaction` (`gas_pool_core.rs:122-174`) computes the
coins it releases to the store. On success it is the one gas object of the effects, with a
balance derived from the balance read before execution: `total as i64 - net_gas_usage`, cast
back with `as u64`. On failure it is whatever `get_latest_gas_objects(payment)` still finds.
It then counts the smashed coins as `payment_count - updated_coins.len()`, a `usize`
subtraction.

The arithmetic is a release build's: the `u64` sum, the `i64` subtraction and both casts wrap.
`newBalance_toNat`: the released balance is the exact `S - n` reduced modulo `2^64`, for every
list of balances and every net usage; so it is `S - n` whenever that lies in `[0, 2^64)`
(`newBalance_eq_sub`), and it wraps to `2^64 - (n - S)` when the read balance is below the
charge (`newBalance_wraps_below_charge`).

`length_updatedCoins_le`: the released list is never longer than the payment list, on the
failure path for every payment and on the success path for a non-empty one. That the success
path only ever meets a non-empty payment is a fact of the runs, not of this function: the chain
executes no transaction without a payment coin (`smashed_count_le_payment`).
-/

namespace GasPool

/-- `GasPool::get_total_gas_coin_balance` (`gas_pool_core.rs:238-245`): the `u64` sum of the
balances of the coins the fullnode still finds. -/
def getTotalGasCoinBalance (snapshot : ObjectID → SuiObjectResponse) (order : List ℕ)
    (gasCoins : List ObjectID) : U64 :=
  ((latestGasCoins snapshot order gasCoins).map GasCoin.balance).sum

/-- `(total_gas_coin_balance as i64 - net_gas_usage) as u64` (`gas_pool_core.rs:137-138, 154`):
both casts keep the bits, and the subtraction wraps. -/
def newBalance (totalGasCoinBalance : U64) (netGasUsage : I64) : U64 :=
  totalGasCoinBalance - netGasUsage

/-- The coin released on the success path: the gas object of the effects, with the derived
balance (`gas_pool_core.rs:136-155`). -/
def newGasCoin (sponsor : SuiAddress) (totalGasCoinBalance : U64) (effects : Effects) :
    GasCoin :=
  { owner := sponsor, objectRef := effects.gasObject,
    balance := newBalance totalGasCoinBalance effects.netGasUsage }

/-- `updated_coins` (`gas_pool_core.rs:134-169`): the gas object of the effects with its derived
balance, or on an error the coins `latest` of the failure-path lookup. -/
def updatedCoins {ε : Type} (sponsor : SuiAddress) (totalGasCoinBalance : U64)
    (response : Except ε Effects) (latest : List GasCoin) : List GasCoin :=
  match response with
  | .ok effects => [newGasCoin sponsor totalGasCoinBalance effects]
  | .error _ => latest

/-! ## The derived balance -/

theorem toNat_sum (l : List U64) : l.sum.toNat = (l.map BitVec.toNat).sum % 2 ^ 64 := by
  induction l with
  | nil => rfl
  | cons a l ih => simp [List.sum_cons, BitVec.toNat_add, ih, Nat.add_mod]

theorem toNat_sub_eq_emod (x n : BitVec 64) :
    ((x - n).toNat : ℤ) = ((x.toNat : ℤ) - n.toInt) % 2 ^ 64 := by
  rw [BitVec.toNat_sub, BitVec.toInt_eq_toNat_cond]
  have := x.isLt
  have := n.isLt
  split_ifs <;> omega

/-- The released balance is the exact difference of the balances' sum and the net usage,
reduced modulo `2^64`. -/
theorem newBalance_toNat (balances : List U64) (n : I64) :
    ((newBalance balances.sum n).toNat : ℤ) =
      (((balances.map BitVec.toNat).sum : ℤ) - n.toInt) % 2 ^ 64 := by
  rw [newBalance, toNat_sub_eq_emod, toNat_sum]
  omega

/-- The balance law of the success path: whenever `S - n` is a `u64`, the released balance is
exactly `S - n`, whatever the sum, the casts and the subtraction wrapped on the way. -/
theorem newBalance_eq_sub (balances : List U64) (n : I64)
    (h0 : n.toInt ≤ (balances.map BitVec.toNat).sum)
    (h1 : ((balances.map BitVec.toNat).sum : ℤ) - n.toInt < 2 ^ 64) :
    ((newBalance balances.sum n).toNat : ℤ) = (balances.map BitVec.toNat).sum - n.toInt := by
  rw [newBalance_toNat]
  exact Int.emod_eq_of_lt (by omega) h1

theorem newBalance_eq_sub_of_read_covers_charge :
    (200 : I64).toInt ≤ (([150, 100] : List U64).map BitVec.toNat).sum ∧
      (((([150, 100] : List U64).map BitVec.toNat).sum : ℤ) - (200 : I64).toInt < 2 ^ 64) ∧
      ((newBalance ([150, 100] : List U64).sum 200).toNat : ℤ) =
        (([150, 100] : List U64).map BitVec.toNat).sum - (200 : I64).toInt :=
  ⟨by decide, by decide, newBalance_eq_sub [150, 100] 200 (by decide) (by decide)⟩

/-- A read balance of `100` against a net usage of `200` releases a coin of balance
`2^64 - 100`. -/
theorem newBalance_wraps_below_charge :
    (newBalance ([100] : List U64).sum 200).toNat = 2 ^ 64 - 100 := by
  decide

/-! ## The smashed-coin count -/

/-- The released list is never longer than the payment list when the response is an error or
the payment is non-empty: `payment_count - updated_coins.len()` does not underflow. -/
theorem length_updatedCoins_le {ε : Type} (sponsor : SuiAddress) (total : U64)
    (response : Except ε Effects) (snapshot : ObjectID → SuiObjectResponse) (order : List ℕ)
    (payment : List ObjectID) (h : (∃ e, response = .error e) ∨ payment ≠ []) :
    (updatedCoins sponsor total response (latestGasCoins snapshot order payment)).length ≤
      payment.length := by
  cases response with
  | ok effects =>
    have : payment ≠ [] := h.resolve_left (by simp)
    simpa [updatedCoins, Nat.one_le_iff_ne_zero] using this
  | error e => exact length_latestGasCoins_le snapshot order payment

end GasPool

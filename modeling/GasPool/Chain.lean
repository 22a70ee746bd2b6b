import GasPool.Types
import Mathlib.Algebra.BigOperators.Group.List
import Mathlib.Algebra.Order.Ring.Nat

/-!
# The chain

The pool's counterpart on chain: the current state of every gas coin object, and what the
chain does with a sponsored transaction. The chain is outside the sources; what the core
relies on (spec, sections 4.1 and 6) is that an executed transaction smashes its payment coins
into the first one, which becomes the gas object at a new version with the payment's balance
less the net gas usage, and that the others no longer exist.

A transaction is executed only when its payment is non-empty, names distinct coins, each at
its current version and owned by the gas owner, and covers the charge.
-/

namespace GasPool

/-- The chain's current state of each object: the gas coin it is, or `none` when it does not
exist (never created, or deleted, e.g. smashed into a gas object). -/
abbrev Ledger := ObjectID → Option GasCoin

namespace Ledger

/-- The exact sum of the balances of the payment coins on the ledger. -/
def paymentBalance (ledger : Ledger) (payment : List ObjectRef) : ℕ :=
  ((payment.filterMap fun p => ledger p.1).map fun c => c.balance.toNat).sum

/-- The chain accepts a payment of `sponsor` charged `n`: non-empty, of distinct coins, each at
its current reference and owned by the sponsor, with a balance that covers `n` and leaves a
`u64`. -/
def Accepts (ledger : Ledger) (sponsor : SuiAddress) (payment : List ObjectRef) (n : I64) :
    Prop :=
  payment ≠ [] ∧ (payment.map (·.1)).Nodup ∧
    (∀ p ∈ payment, (ledger p.1).any fun c => c.objectRef == p && c.owner == sponsor) ∧
    n.toInt ≤ ledger.paymentBalance payment ∧
    (ledger.paymentBalance payment : ℤ) - n.toInt < 2 ^ 64

instance (ledger : Ledger) (sponsor : SuiAddress) (payment : List ObjectRef) (n : I64) :
    Decidable (ledger.Accepts sponsor payment n) := by
  unfold Accepts; infer_instance

/-- The version of the gas object after execution: one past the payment's versions. -/
def lamportVersion (payment : List ObjectRef) : SequenceNumber :=
  (payment.map (·.2.1)).foldr max 0 + 1

/-- The chain executes a transaction of `sponsor` paying with `payment` and charged `n`: the
gas object is the first payment coin at version `lamportVersion payment` and digest `digest`,
with the payment's balance less `n`; the other payment coins are deleted. -/
def execute (ledger : Ledger) (sponsor : SuiAddress) (payment : List ObjectRef) (n : I64)
    (digest : ObjectDigest) : Option (Ledger × Effects) :=
  match payment with
  | [] => none
  | gas :: _ =>
    if ledger.Accepts sponsor payment n then
      let coin : GasCoin := ⟨sponsor, (gas.1, lamportVersion payment, digest),
        BitVec.ofInt 64 (ledger.paymentBalance payment - n.toInt)⟩
      some (fun x => if x = gas.1 then some coin
        else if x ∈ payment.map (·.1) then none else ledger x, ⟨coin.objectRef, n⟩)
    else none

/-- What an execution does: the payment was accepted, and the ledger changes only at the
payment's ids, the first becoming the gas object of the effects. -/
theorem execute_eq_some {ledger ledger' : Ledger} {sponsor : SuiAddress}
    {payment : List ObjectRef} {n : I64} {digest : ObjectDigest} {effects : Effects}
    (h : ledger.execute sponsor payment n digest = some (ledger', effects)) :
    ∃ gas rest, payment = gas :: rest ∧ ledger.Accepts sponsor payment n ∧
      effects = ⟨(gas.1, lamportVersion payment, digest), n⟩ ∧
      ledger' gas.1 = some ⟨sponsor, effects.gasObject,
        BitVec.ofInt 64 (ledger.paymentBalance payment - n.toInt)⟩ ∧
      (∀ x ∈ rest.map (·.1), x ≠ gas.1 → ledger' x = none) ∧
      (∀ x, x ∉ payment.map (·.1) → ledger' x = ledger x) := by
  unfold execute at h
  split at h
  · cases h
  · rename_i gas rest
    split_ifs at h with hacc
    obtain ⟨rfl, rfl⟩ := Prod.mk.inj (Option.some.inj h).symm
    refine ⟨gas, rest, rfl, hacc, rfl, by simp, fun x hx hne => ?_, fun x hx => ?_⟩
    · simp [hne, List.mem_cons.2 (.inr hx)]
    · have hne : x ≠ gas.1 := fun h => hx (h ▸ List.mem_cons_self _ _)
      simp only [if_neg hne, if_neg hx]

end Ledger

end GasPool

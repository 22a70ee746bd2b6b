import GasPool.System.Steps

/-!
# The smashed-coin count

Before it releases `updated_coins`, `execute_transaction` counts the coins the transaction
smashed as `payment_count - updated_coins.len()` (`gas_pool_core.rs:170-174`), a `usize`
subtraction. No check of the call asks for a non-empty payment, and on the success path
`updated_coins` is one coin: the count is safe there only because effects come back after an
execution, and the chain executes no transaction without a payment coin (`Ledger.execute`). On
the failure path the lookup finds at most one coin per id it is given (`length_updatedCoins_le`).

`SmashInv` carries the first fact from the submission to the release: a call whose transaction
was executed pays with at least one coin, and a call about to release has no more coins to
release than it paid with. It holds in every run, whatever the environment allows
(`smashed_count_le_payment`), late executions and lookup retries included.
-/

namespace GasPool

/-- What a call's phase bounds of the coins it will release: after the execution its payment is
not empty, and before the release its coins are no more than its payment's. -/
def Call.WithinPayment (c : Call) : Prop :=
  match c.phase with
  | .usage _ _ => c.txData.paymentIds ≠ []
  | .release coins _ => coins.length ≤ c.txData.paymentIds.length
  | .start | .rejected _ | .balance | .sign _ _ | .submit _ | .latest _ | .done _ => True

/-- Every call is within its payment. -/
def SmashInv (s : State) : Prop := ∀ t c, s.calls t = some c → c.WithinPayment

namespace SmashInv

variable {cfg : Config} {s s' : State}

/-- Replacing one call by a call within its payment keeps the invariant. -/
theorem update (hv : SmashInv s) {t : ℕ} {c : Call}
    (hcalls : s'.calls = Function.update s.calls t (some c)) (hc : c.WithinPayment) :
    SmashInv s' := fun t' c' h => by
  rw [hcalls, Function.update_apply] at h
  split_ifs at h
  · cases h
    exact hc
  · exact hv t' c' h

/-- Every step of a call keeps it within its payment: the chain executes only a non-empty
payment, the success path releases one coin, and the failure path's lookup at most one per
payment coin. -/
theorem callStep (hv : SmashInv s) {t : ℕ} {c : Call} (hc : s.calls t = some c)
    (h : CallStep cfg s t c s') : SmashInv s' := by
  cases h with
  | executed total n digest ledger effects _ hex =>
    obtain ⟨gas, rest, hpay, -⟩ := Ledger.execute_eq_some hex
    exact hv.update rfl (show c.txData.paymentIds ≠ [] by simp [TransactionData.paymentIds, hpay])
  | usage total effects hp =>
    have hne : c.txData.paymentIds ≠ [] := by simpa [Call.WithinPayment, hp] using hv t c hc
    exact hv.update rfl (length_updatedCoins_le c.sponsor total
      (.ok effects : Except ExecuteError Effects) (s.view cfg) [] _ (.inr hne))
  | latest e order _ _ =>
    exact hv.update rfl (length_updatedCoins_le c.sponsor 0
      (.error e : Except ExecuteError Effects) (s.view cfg) order _ (.inl ⟨e, rfl⟩))
  | signFail total k _ =>
    refine hv.update rfl ?_
    show Call.WithinPayment { c with phase := if k + 1 < 3 then _ else _ }
    split <;> trivial
  | lookupFail _ | releaseFail _ _ _ => exact hv
  | reject _ _ | readyFail _ | readyOk _ _ _ | balance _ _ _ | signOk _ _ _ | lost _ _ _ _ _ _ _
  | unexecuted _ _ | releaseOk _ _ _ => exact hv.update rfl trivial

theorem step (hv : SmashInv s) {a : Action} (h : Step cfg s a s') : SmashInv s' := by
  cases h with
  | executeTransaction t r txData _ => exact hv.update rfl trivial
  | call t o c _ hc _ hcall => exact hv.callStep hc hcall
  | drop t c hc _ => exact hv.update rfl (hv t c hc)
  | sweep _ _ hsweep => cases hsweep <;> exact hv
  | _ => exact hv

end SmashInv

/-- Every call is within its payment in every run, whatever the environment allows. -/
theorem smashInv_of_reaches {cfg : Config} {env : State → Action → Bool} {pool : List GasCoin}
    {s : State} (hs : Reaches cfg env (init pool) s) : SmashInv s :=
  hs.rec_step (fun _ _ h => nomatch h) fun _ _ _ hv _ h => hv.step h

/-- In every run, whatever the environment allows and whatever transaction the checks admit,
an empty payment included: a call about to release `updated_coins` releases at most as many coins
as it paid with, so `payment_count - updated_coins.len()` does not underflow, on the success path
and on the failure path alike, and the call goes on to `release_gas_coins`. -/
theorem smashed_count_le_payment {cfg : Config} {env : State → Action → Bool}
    {pool : List GasCoin} {s : State} (hs : Reaches cfg env (init pool) s) {t : ℕ} {c : Call}
    {coins : List GasCoin} {response : Except ExecuteError Effects} (hc : s.calls t = some c)
    (hp : c.phase = .release coins response) : coins.length ≤ c.txData.paymentIds.length := by
  have hv := smashInv_of_reaches hs t c hc
  rw [Call.WithinPayment, hp] at hv
  exact hv

/-- The one-coin pool: a call is executed, charged `3`, and has updated the usage cap; it is
about to release the new gas coin. -/
def releasingState : State :=
  runState (cfgOne .upToDate) anyAction (init onePool)
    [.reserveGas none 5 1000 onePool,
      .executeTransaction 0 0 ⟨.programmableTransaction [], ⟨[(1, 1, 0)], 0⟩⟩,
      .run 0 .ok, .run 0 (.read [0]), .run 0 .ok, .run 0 (.submit (.executed 3 7)), .run 0 .ok]

theorem smashed_count_le_payment_releasingState :
    let c : Call := ⟨0, ⟨.programmableTransaction [], ⟨[(1, 1, 0)], 0⟩⟩,
      .release [⟨0, (1, 2, 7), 7⟩] (.ok ⟨(1, 2, 7), 3⟩), false⟩
    Reaches (cfgOne .upToDate) anyAction (init onePool) releasingState ∧
      releasingState.calls 0 = some c ∧
      c.phase = .release [⟨0, (1, 2, 7), 7⟩] (.ok ⟨(1, 2, 7), 3⟩) ∧
      [(⟨0, (1, 2, 7), 7⟩ : GasCoin)].length ≤ c.txData.paymentIds.length := by
  intro c
  have hs : Reaches (cfgOne .upToDate) anyAction (init onePool) releasingState :=
    reaches_runState _ (by decide)
  have hc : releasingState.calls 0 = some c := rfl
  exact ⟨hs, hc, rfl, smashed_count_le_payment hs hc rfl⟩

end GasPool

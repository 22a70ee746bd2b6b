import GasPool.System.Custody

/-! # The pool agrees with the chain

Which coins `add_new_coins` is given: on the success path the gas object of the effects, with
the balance `get_total_gas_coin_balance(payment)` read before the execution less the net gas
usage (`gas_pool_core.rs:122-156`); on the failure path and in the coin unlocker, whatever the
fullnode returns for the ids (`gas_pool_core.rs:162-174, 323-336`).

With an up-to-date fullnode, honest callers and a chain that executes a transaction only while
it is being submitted (`honestPrompt`), these are the chain's current objects: reference, owner
and balance (`add_new_coins_current`). The balance read is the chain's total for the payment,
and nothing spends the payment between the read and the execution, because custody is
exclusive. A lagging fullnode breaks it: the read can return a coin at the version before the
previous transaction, and the pool releases a balance the chain does not have
(`lagging_read_releases_stale_balance`). So does a late execution: `SuiClient::execute_transaction`
can return an error after the quorum driver sent the transaction on (`sui_client.rs:215-232`),
and when the chain executes it after the failure path's lookup, what was released is stale.
-/

namespace GasPool

/-! ## A chain that executes only what is being submitted -/

/-- The chain executing a transaction after its submission returned (`Action.settle`). -/
def Action.isSettle : Action → Bool
  | .settle _ _ _ => true
  | _ => false

/-- Honest callers, and a chain that executes a transaction only while it is being submitted,
never after the submission returned an error. The source does not rule such a late execution out
(`sui_client.rs:215-232`); the results of this module and of `Holdings` assume it. -/
def honestPrompt (s : State) (a : Action) : Bool := honest s a && !a.isSettle

theorem honestPrompt_eq_true {s : State} {a : Action} :
    honestPrompt s a = true ↔ honest s a = true ∧ a.isSettle = false := by
  simp [honestPrompt]

/-- A run of honest callers and a prompt chain is a run of honest callers. -/
theorem Reaches.honest {cfg : Config} {s₀ s : State} (h : Reaches cfg honestPrompt s₀ s) :
    Reaches cfg honest s₀ s :=
  h.mono fun _ _ ha => (honestPrompt_eq_true.1 ha).1

/-! ## The chain's side of a payment -/

namespace Ledger

/-- The chain holds each of `coins` as it is: same reference, owner and balance. -/
def Holds (ledger : Ledger) (coins : List GasCoin) : Prop :=
  ∀ coin ∈ coins, ledger coin.id = some coin

/-- The `u64` sum of the chain's balances of the payment coins. -/
def paymentTotal (ledger : Ledger) (payment : List ObjectRef) : U64 :=
  ((payment.filterMap fun p => ledger p.1).map GasCoin.balance).sum

theorem paymentTotal_congr {ledger ledger' : Ledger} {payment : List ObjectRef}
    (h : ∀ x ∈ payment.map (·.1), ledger' x = ledger x) :
    ledger'.paymentTotal payment = ledger.paymentTotal payment := by
  unfold paymentTotal
  rw [List.filterMap_congr fun p hp => h p.1 (List.mem_map_of_mem _ hp)]

/-- The balance the pool derives from the chain's total is the one the chain gives the gas
object: both are the payment's exact balance less the charge, modulo `2^64`. -/
theorem newBalance_paymentTotal (ledger : Ledger) (payment : List ObjectRef) (n : I64) :
    newBalance (ledger.paymentTotal payment) n =
      BitVec.ofInt 64 (ledger.paymentBalance payment - n.toInt) := by
  apply BitVec.eq_of_toNat_eq
  apply Int.ofNat_inj.1
  rw [paymentTotal, newBalance_toNat, BitVec.toNat_ofInt,
    Int.toNat_of_nonneg (Int.emod_nonneg _ (by decide)), List.map_map]
  rfl

/-- A lookup against an up-to-date fullnode returns coins the chain holds. -/
theorem holds_latestGasCoins {ledger : Ledger} (hwf : ∀ x c, ledger x = some c → c.id = x)
    (order : List ℕ) (objectIds : List ObjectID) :
    ledger.Holds (latestGasCoins (fun x => GasCoin.toResponse (ledger x)) order objectIds) :=
  fun c hc => by
  obtain ⟨x, -, hx⟩ := mem_latestGasCoins hc
  rw [tryGetSuiCoinBalance_toResponse] at hx
  rwa [hwf x c hx]

/-- Against an up-to-date fullnode, when every chunk completes, the balance read for distinct
payment coins is the chain's total. -/
theorem getTotalGasCoinBalance_current {ledger : Ledger}
    (hwf : ∀ x c, ledger x = some c → c.id = x) {payment : List ObjectRef} {order : List ℕ}
    (horder : IsCompletionOrder (payment.map (·.1)) order) (hnd : (payment.map (·.1)).Nodup) :
    getTotalGasCoinBalance (fun x => GasCoin.toResponse (ledger x)) order (payment.map (·.1)) =
      ledger.paymentTotal payment := by
  rw [getTotalGasCoinBalance, ((latestGasCoins_perm hwf horder hnd).map _).sum_eq,
    List.filterMap_map]
  rfl

end Ledger

theorem State.view_upToDate {cfg : Config} (s : State) (h : cfg.fullnode = .upToDate) :
    s.view cfg = fun x => GasCoin.toResponse (s.ledger x) := by
  unfold State.view
  rw [h]

/-! ## What each phase knows of the chain -/

/-- What a call's phase knows of the chain: the balance it read is the chain's total for its
payment; the gas object of the effects is the chain's, with the balance the call derives; the
coins it is to release are the chain's current objects. -/
def Call.Agrees (ledger : Ledger) (c : Call) : Prop :=
  match c.phase with
  | .sign total _ | .submit total => total = ledger.paymentTotal c.txData.gasData.payment
  | .usage total effects => ledger effects.gasObject.1 = some (newGasCoin c.sponsor total effects)
  | .release coins _ => ledger.Holds coins
  | .start | .rejected _ | .balance | .latest _ | .done _ => True

/-- The coins the unlocker is to return are the chain's current objects. -/
def Sweeper.Agrees (ledger : Ledger) : Sweeper → Prop
  | .release coins => ledger.Holds coins
  | .top | .select | .expired _ | .exited => True

/-- The agreement invariant: every call and the unlocker agree with the chain. -/
structure AgreeInv (s : State) : Prop where
  calls : ∀ t c, s.calls t = some c → c.Agrees s.ledger
  sweeper : s.sweeper.Agrees s.ledger

theorem agreeInv_init (pool : List GasCoin) : AgreeInv (init pool) :=
  ⟨(fun _ _ h => nomatch h), trivial⟩

/-- What a call knows of the chain is about its payment only, and only while it is in
progress past its commit point. -/
theorem Call.Agrees.congr {ledger ledger' : Ledger} {st : Store} {c : Call}
    (h : c.Agrees ledger) (hp : c.Pays st)
    (heq : c.phase.committed → c.phase.isDone = false →
      ∀ x ∈ c.txData.paymentIds, ledger' x = ledger x) :
    c.Agrees ledger' := by
  obtain ⟨r, txData, phase, dropped⟩ := c
  cases phase with
  | sign total k | submit total =>
    exact h.trans (Ledger.paymentTotal_congr (heq rfl rfl)).symm
  | usage total effects => exact (heq rfl rfl _ (hp.usage total effects rfl)).trans h
  | release coins response =>
    exact fun coin hc => (heq rfl rfl _
      ((hp.release coins response rfl).2 (List.mem_map_of_mem _ hc))).trans (h coin hc)
  | start | rejected _ | balance | latest _ | done _ => trivial

theorem Sweeper.Agrees.congr {ledger ledger' : Ledger} {w : Sweeper} (h : w.Agrees ledger)
    (heq : ∀ x ∈ w.pendingIds, ledger' x = ledger x) : w.Agrees ledger' := by
  cases w with
  | release coins =>
    exact fun coin hc => (heq _ (List.mem_map_of_mem _ hc)).trans (h coin hc)
  | top | select | expired _ | exited => trivial

theorem agrees_enterSelect (ledger : Ledger) (s : State) :
    s.enterSelect.sweeper.Agrees ledger := by
  simp only [State.enterSelect_sweeper]
  split <;> trivial

/-! ## The agreement invariant -/

namespace AgreeInv

variable {cfg : Config} {s s' : State}

/-- Moving call `t` to a phase that agrees with the chain, the chain and the unlocker
unchanged, keeps the invariant. -/
theorem setPhase (ha : AgreeInv s) {t : ℕ} {c : Call} {p : Phase}
    (hcalls : s'.calls = Function.update s.calls t (some { c with phase := p }))
    (hl : s'.ledger = s.ledger) (hsw : s'.sweeper = s.sweeper)
    (hp : ({ c with phase := p } : Call).Agrees s.ledger) : AgreeInv s' := by
  refine ⟨fun t' c' h => ?_, by rw [hsw, hl]; exact ha.sweeper⟩
  rw [hcalls] at h
  rw [hl]
  rcases CommitInv.update_eq_some h with ⟨-, rfl⟩ | ⟨-, h⟩
  · exact hp
  · exact ha.calls t' c' h

/-- An execution of call `t`'s payment keeps every other call and the unlocker in agreement:
they hold none of its coins. -/
theorem execute (ha : AgreeInv s) (hi : CustodyInv s) (hcom : CommitInv s) {t : ℕ} {c : Call}
    (hc : s.calls t = some c) (hcom' : c.phase.committed) (hd : c.phase.isDone = false)
    {ledger : Ledger} (hkeep : ∀ x, x ∉ c.txData.paymentIds → ledger x = s.ledger x) :
    (∀ t' c', s.calls t' = some c' → t' ≠ t → c'.Agrees ledger) ∧ s.sweeper.Agrees ledger := by
  refine ⟨fun t' c' hc' hne => (ha.calls t' c' hc').congr (hi.calls t' c' hc')
    fun hcom'' hd'' x hx => hkeep x fun hxt => ?_, ha.sweeper.congr fun x hx => hkeep x
      fun hxt => (hi.payment_disjoint hcom hc hcom' hd hxt).1 hx⟩
  exact (hi.payment_disjoint hcom hc hcom' hd hxt).2 t' c' hc' hne hcom'' hd'' hx

/-- Every step of a call keeps the agreement, when the fullnode is up to date. -/
theorem callStep (ha : AgreeInv s) (hi : CustodyInv s) (hcom : CommitInv s)
    (hfull : cfg.fullnode = .upToDate) {t : ℕ} {c : Call} (hc : s.calls t = some c)
    (h : CallStep cfg s t c s') : AgreeInv s' := by
  have hagree := ha.calls t c hc
  cases h with
  | reject _ _ | readyFail _ | readyOk _ _ _ | unexecuted _ _ | releaseOk _ _ _ =>
    exact ha.setPhase rfl rfl rfl trivial
  | balance order hp horder =>
    refine ha.setPhase rfl rfl rfl ?_
    rw [State.view_upToDate s hfull]
    exact Ledger.getTotalGasCoinBalance_current hi.ledger_id horder
      (hi.payment_nodup hcom hc (by rw [hp]; rfl) (by rw [hp]; rfl))
  | signOk total k hp =>
    simp only [Call.Agrees, hp] at hagree
    exact ha.setPhase rfl rfl rfl hagree
  | signFail total k hp =>
    simp only [Call.Agrees, hp] at hagree
    refine ha.setPhase rfl rfl rfl ?_
    by_cases hk : k + 1 < 3
    · rw [if_pos hk]; exact hagree
    · rw [if_neg hk]; trivial
  | executed total n digest ledger effects hp hex =>
    simp only [Call.Agrees, hp] at hagree
    obtain ⟨gas, rest, -, -, rfl, hgas, -, hkeep⟩ := Ledger.execute_eq_some hex
    obtain ⟨hcalls, hsw⟩ := ha.execute hi hcom hc (by rw [hp]; rfl) (by rw [hp]; rfl) hkeep
    refine ⟨fun t' c' h => ?_, hsw⟩
    rcases CommitInv.update_eq_some h with ⟨-, rfl⟩ | ⟨hne, h⟩
    · refine hgas.trans ?_
      simp only [newGasCoin, Call.sponsor, hagree, Ledger.newBalance_paymentTotal]
    · exact hcalls t' c' h hne
  | lost total n digest ledger effects hp hex =>
    obtain ⟨-, -, -, -, -, -, -, hkeep⟩ := Ledger.execute_eq_some hex
    obtain ⟨hcalls, hsw⟩ := ha.execute hi hcom hc (by rw [hp]; rfl) (by rw [hp]; rfl) hkeep
    refine ⟨fun t' c' h => ?_, hsw⟩
    rcases CommitInv.update_eq_some h with ⟨-, rfl⟩ | ⟨hne, h⟩
    · trivial
    · exact hcalls t' c' h hne
  | usage total effects hp =>
    simp only [Call.Agrees, hp] at hagree
    exact ha.setPhase rfl rfl rfl (List.forall_mem_singleton.2 hagree)
  | latest e order hp _ =>
    refine ha.setPhase rfl rfl rfl ?_
    rw [State.view_upToDate s hfull]
    exact Ledger.holds_latestGasCoins hi.ledger_id order _
  | lookupFail _ | releaseFail _ _ _ => exact ⟨ha.calls, ha.sweeper⟩

/-- Every step of the coin unlocker keeps the agreement, when the fullnode is up to date. -/
theorem sweep (ha : AgreeInv s) (hi : CustodyInv s) (hfull : cfg.fullnode = .upToDate)
    (h : SweepStep cfg s s') : AgreeInv s' := by
  cases h with
  | expireNone _ _ | expireFail _ | releaseOk _ _ =>
    exact ⟨ha.calls, agrees_enterSelect _ _⟩
  | expireSome _ _ | wake _ | cancel _ _ => exact ⟨ha.calls, trivial⟩
  | lookup xs order _ _ =>
    refine ⟨ha.calls, ?_⟩
    rw [State.view_upToDate s hfull]
    exact Ledger.holds_latestGasCoins hi.ledger_id order xs
  | lookupFail _ _ | releaseFail _ _ => exact ⟨ha.calls, ha.sweeper⟩

/-- Every step but a late execution keeps the agreement, when the fullnode is up to date. -/
theorem step (ha : AgreeInv s) (hi : CustodyInv s) (hcom : CommitInv s)
    (hfull : cfg.fullnode = .upToDate) {a : Action} (hsettle : a.isSettle = false)
    (h : Step cfg s a s') : AgreeInv s' := by
  cases h with
  | settle _ _ _ _ _ _ _ _ _ => cases hsettle
  | executeTransaction t r txData _ =>
    exact ha.setPhase (c := ⟨r, txData, .start, false⟩) rfl rfl rfl trivial
  | call t o c s' hc _ hcall => exact ha.callStep hi hcom hfull hc hcall
  | drop t c hc _ =>
    refine ⟨fun t' c' h => ?_, ha.sweeper⟩
    rcases CommitInv.update_eq_some h with ⟨-, rfl⟩ | ⟨-, h⟩
    exacts [ha.calls t c hc, ha.calls t' c' h]
  | sweep o s' hsweep => exact ha.sweep hi hfull hsweep
  | reserveGas _ _ _ _ _ _ _ | containerDrop _ | tick _ | sync _ => exact ⟨ha.calls, ha.sweeper⟩

end AgreeInv

/-- With an up-to-date fullnode, honest callers and a prompt chain, in every run from a pool of
distinct coins, every call and the unlocker agree with the chain. -/
theorem agreeInv_of_honestPrompt {cfg : Config} {pool : List GasCoin} {s : State}
    (hfull : cfg.fullnode = .upToDate) (hpool : (ids pool).Nodup)
    (hs : Reaches cfg honestPrompt (init pool) s) : AgreeInv s :=
  hs.rec_reach (agreeInv_init pool) fun _ _ _ hr ha henv h =>
    ha.step (custodyInv_of_honest hpool hr.honest) (commitInv_of_reaches hr) hfull
      (honestPrompt_eq_true.1 henv).2 h

/-! ## What `add_new_coins` is given -/

/-- Only a call in its release phase, or the unlocker in its own, calls `add_new_coins`, and it
passes the coins of that phase. -/
theorem Step.addNewCoins {cfg : Config} {s s' : State} {a : Action} (h : Step cfg s a s')
    {src : Source} {coins : List GasCoin} {ok : Bool}
    (hlog : s'.log = .addNewCoins src coins ok :: s.log) :
    (∃ t c response, s.calls t = some c ∧ c.phase = .release coins response) ∨
      s.sweeper = .release coins := by
  have hne : ∀ {l : List Event} {e : Event}, l ≠ e :: l := fun h => by
    simpa using congrArg List.length h
  cases h with
  | call t o c s' hc _ hcall =>
    cases hcall with
    | releaseOk coins' response hp | releaseFail coins' response hp =>
      obtain ⟨-, rfl, -⟩ := by simpa using hlog
      exact .inl ⟨t, c, response, hc, hp⟩
    | _ => first | exact absurd hlog hne | simp at hlog
  | sweep o s' hsweep =>
    cases hsweep with
    | releaseOk coins' hsw | releaseFail coins' hsw =>
      obtain ⟨-, rfl, -⟩ := by simpa using hlog
      exact .inr hsw
    | _ => first | exact absurd hlog hne | simp at hlog
  | _ => first | exact absurd hlog hne | simp at hlog

/-- With an up-to-date fullnode, honest callers and a chain that never executes a transaction
after its submission returned an error, in every run from a pool of distinct coins, every
`add_new_coins`, on a call's success or failure path or in the coin unlocker, passes coins the
chain holds as they are: each object's current reference, owner and balance. -/
theorem add_new_coins_current {cfg : Config} {pool : List GasCoin} {s s' : State} {a : Action}
    (hfull : cfg.fullnode = .upToDate) (hpool : (ids pool).Nodup)
    (hs : Reaches cfg honestPrompt (init pool) s) (h : Step cfg s a s') {src : Source}
    {coins : List GasCoin} {ok : Bool} (hlog : s'.log = .addNewCoins src coins ok :: s.log) :
    s.ledger.Holds coins := by
  have ha := agreeInv_of_honestPrompt hfull hpool hs
  rcases h.addNewCoins hlog with ⟨t, c, response, hc, hp⟩ | hsw
  · simpa only [Call.Agrees, hp] using ha.calls t c hc
  · simpa only [Sweeper.Agrees, hsw] using ha.sweeper

/-- The one-coin pool under an up-to-date fullnode: the coin is reserved and paid with, the
chain charges `3`, and the call's usage is recorded. -/
def currentState : State :=
  runState (cfgOne .upToDate) honestPrompt (init onePool)
    [.reserveGas none 5 1000 onePool,
      .executeTransaction 0 0 ⟨.programmableTransaction [], ⟨[(1, 1, 0)], 0⟩⟩,
      .run 0 .ok, .run 0 (.read [0]), .run 0 .ok, .run 0 (.submit (.executed 3 7)), .run 0 .ok]

/-- The call's `add_new_coins` from `currentState`. -/
def currentReleasedState : State :=
  (step (cfgOne .upToDate) currentState (.run 0 .ok)).get (by decide)

theorem add_new_coins_current_currentState :
    (cfgOne .upToDate).fullnode = .upToDate ∧ (ids onePool).Nodup ∧
      Reaches (cfgOne .upToDate) honestPrompt (init onePool) currentState ∧
      Step (cfgOne .upToDate) currentState (.run 0 .ok) currentReleasedState ∧
      currentReleasedState.log =
        .addNewCoins (.call 0) [⟨0, (1, 2, 7), 7⟩] true :: currentState.log ∧
      currentState.ledger.Holds [⟨0, (1, 2, 7), 7⟩] := by
  have hs : Reaches (cfgOne .upToDate) honestPrompt (init onePool) currentState :=
    reaches_runState _ (by decide)
  have hstep : Step (cfgOne .upToDate) currentState (.run 0 .ok) currentReleasedState :=
    Step.of_step (Option.some_get _).symm
  have hlog : currentReleasedState.log =
      .addNewCoins (.call 0) [⟨0, (1, 2, 7), 7⟩] true :: currentState.log := by decide
  exact ⟨rfl, by decide, hs, hstep, hlog, add_new_coins_current rfl (by decide) hs hstep hlog⟩

/-! ## A lagging fullnode -/

/-- An honest run of the one-coin pool under a lagging fullnode that never catches up: the coin
is reserved, paid with and charged `3`, which leaves it at version `2` with balance `7`; the new
coin is reserved again, paid with and charged `2`, while the fullnode still returns it at
version `1` with balance `10`. -/
def lagRun : List Action :=
  [.reserveGas none 5 1000 onePool,
    .executeTransaction 0 0 ⟨.programmableTransaction [], ⟨[(1, 1, 0)], 0⟩⟩,
    .run 0 .ok, .run 0 (.read [0]), .run 0 .ok, .run 0 (.submit (.executed 3 7)), .run 0 .ok,
    .run 0 .ok,
    .reserveGas none 5 1000 [⟨0, (1, 2, 7), 7⟩],
    .executeTransaction 1 1 ⟨.programmableTransaction [], ⟨[(1, 2, 7)], 0⟩⟩,
    .run 1 .ok, .run 1 (.read [0]), .run 1 .ok, .run 1 (.submit (.executed 2 9)), .run 1 .ok,
    .run 1 .ok]

/-- The state after `lagRun`. -/
def lagState : State := runState (cfgOne .lagging) honest (init onePool) lagRun

/-- The last `add_new_coins` of the run passes object `1` at its current reference with balance
`10 - 2 = 8`, while the chain gives it balance `7 - 2 = 5`. -/
theorem lagging_read_releases_stale_balance :
    Reaches (cfgOne .lagging) honest (init onePool) lagState ∧
      lagState.log.head? = some (.addNewCoins (.call 1) [⟨0, (1, 3, 9), 8⟩] true) ∧
      lagState.ledger 1 = some ⟨0, (1, 3, 9), 5⟩ :=
  ⟨reaches_runState _ (by decide), by decide, by decide⟩

end GasPool

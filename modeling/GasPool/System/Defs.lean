import GasPool.Core.Validity
import GasPool.Core.Release
import GasPool.Store
import GasPool.Chain

/-!
# The pool as a concurrent system

`GasPool` (`gas_pool_core.rs`) serves any number of `reserve_gas` and `execute_transaction`
calls at once, while the coin-unlocker task runs beside them. No lock is held across an
`.await`: every coin-store call is atomic, and the tasks interleave at their `.await` points.
This module is that system as a step function on an explicit state.

* An `execute_transaction` call is a `Call`, whose `Phase` is the `.await` it waits at; one step
  runs it to the next. The caller may drop the future at any `.await` (`Action.drop`); the call
  then takes no further step.
* The coin-unlocker task (`start_coin_unlock_task`) is `Sweeper`, one step per `.await` of its
  loop. `GasPoolContainer::drop` sends the cancellation (`Action.containerDrop`).
* The store is `Store` (its contract, from the spec); the chain is a `Ledger`; the fullnode
  answers from the ledger, or, when it lags, from its own copy that catches up object by object
  (`Action.sync`).
* The environment's choices are the arguments of the actions: the coins the store selects,
  whether a store call, a signing attempt, a submission or a lookup's chunk fetch succeeds,
  what the chain charges, the order in which a lookup's chunk tasks complete, and when the
  unlocker's sleep ends. A failed chunk fetch is retried (`Event.lookupFailed`); a submission
  that returned an error may still be executed by the chain later (`Action.settle`).

`State.log` records, newest first, every call the pool makes to the store, the signer, the
chain and the usage cap. Metrics and tracing are left out; so are the usage cap's check and
state (only its `update_usage` call is logged), and a `reserve_gas` that fails, which changes
nothing.
-/

namespace GasPool

/-! ## Configuration -/

/-- Modelled from the spec: the signer's sponsor addresses (`TxSigner::get_addresses`, never
empty, section 4.2). -/
structure Signer where
  addresses : List SuiAddress
  addresses_ne_nil : addresses ≠ []

/-- Modelled from the spec: `TxSigner::is_valid_address`. -/
def Signer.isValidAddress (signer : Signer) (address : SuiAddress) : Bool :=
  address ∈ signer.addresses

/-- How the fullnode answers reads: from the chain's current state, or from a lagging copy. -/
inductive FullnodeMode
  | upToDate
  | lagging
deriving DecidableEq, Repr

/-- The system's fixed parts: the signer and the fullnode. -/
structure Config where
  signer : Signer
  fullnode : FullnodeMode

/-- One sponsor, address `0`, and a fullnode of the given mode. -/
def cfgOne (fullnode : FullnodeMode) : Config := ⟨⟨[0], by decide⟩, fullnode⟩

/-! ## `execute_transaction` calls -/

/-- The errors `execute_transaction` returns. -/
inductive ExecuteError
  /-- `"Sponsor {:?} is not registered"` (`gas_pool_core.rs:102-104`). -/
  | sponsorNotRegistered (sponsor : SuiAddress)
  /-- `check_transaction_validity` failed with `msg` (`gas_pool_core.rs:105`). -/
  | invalidTransaction (msg : String)
  /-- `ready_for_execution` failed: the reservation is not ACTIVE, or the store erred. -/
  | readyForExecutionFailed
  /-- Signing failed three times (`gas_pool_core.rs:203-211`). -/
  | signingFailed
  /-- The submission failed (`gas_pool_core.rs:220-223`). -/
  | executionFailed
deriving DecidableEq, Repr

/-- The `.await` a call of `execute_transaction` waits at. -/
inductive Phase
  /-- Called, not yet run: the checks and `ready_for_execution` come next. -/
  | start
  /-- Returned an error before `ready_for_execution` succeeded. -/
  | rejected (e : ExecuteError)
  /-- `get_total_gas_coin_balance(payment)` (`gas_pool_core.rs:126`). -/
  | balance
  /-- Signing, after `failures` failed attempts (`gas_pool_core.rs:203-211`). -/
  | sign (total : U64) (failures : ℕ)
  /-- `sui_client.execute_transaction` (`gas_pool_core.rs:220-223`). -/
  | submit (total : U64)
  /-- `gas_usage_cap.update_usage` after a successful submission (`gas_pool_core.rs:230`). -/
  | usage (total : U64) (effects : Effects)
  /-- The failure path's `get_latest_gas_objects(payment)` (`gas_pool_core.rs:162-167`). -/
  | latest (e : ExecuteError)
  /-- `release_gas_coins(updated_coins)`, retried until it succeeds (`gas_pool_core.rs:174`). -/
  | release (coins : List GasCoin) (response : Except ExecuteError Effects)
  /-- Returned `response`, after releasing the coins. -/
  | done (response : Except ExecuteError Effects)

/-- Past the commit point: `ready_for_execution` succeeded. -/
def Phase.committed : Phase → Bool
  | .start | .rejected _ => false
  | _ => true

/-- Waiting for `get_latest_gas_objects`, whose chunk fetches are each retried until they
succeed (`sui_client.rs:105-125`). -/
def Phase.awaitsLookup : Phase → Bool
  | .balance | .latest _ => true
  | _ => false

/-- The transaction was handed to the chain and no effects came back: the submission is under
way, or it returned an error, perhaps after the quorum driver had already sent the transaction
on (`sui_client.rs:215-232`). The chain may still execute it. -/
def Phase.inDoubt : Phase → Bool
  | .submit _ | .latest .executionFailed | .release _ (.error .executionFailed)
  | .done (.error .executionFailed) => true
  | _ => false

/-- A call of `execute_transaction(reservation_id, tx_data, ..)`. -/
structure Call where
  reservationId : ReservationID
  txData : TransactionData
  phase : Phase
  dropped : Bool

/-- The gas owner of a call's transaction, the sponsor (`gas_pool_core.rs:101`). -/
def Call.sponsor (c : Call) : SuiAddress := c.txData.gasData.owner

/-! ## The coin-unlocker task -/

/-- The `.await` the coin-unlocker loop waits at (`gas_pool_core.rs:318-346`). -/
inductive Sweeper
  /-- The loop head: `expire_coins` comes next. -/
  | top
  /-- `get_latest_gas_objects` of the expired coins' ids. -/
  | expired (ids : List ObjectID)
  /-- `release_gas_coins(latest_coins)`, retried until it succeeds. -/
  | release (coins : List GasCoin)
  /-- The `select!` of the sleep and the cancellation. -/
  | select
  /-- The loop has ended. -/
  | exited
deriving DecidableEq, Repr

/-! ## State, log and actions -/

/-- Who called `add_new_coins`. -/
inductive Source
  | call (t : ℕ)
  | sweeper
deriving DecidableEq, Repr

/-- A call the pool makes to the store, the signer, the chain or the usage cap. -/
inductive Event
  | ready (t : ℕ) (r : ReservationID) (ok : Bool)
  | sign (t : ℕ) (ok : Bool)
  | submit (t : ℕ)
  | updateUsage (t : ℕ)
  | addNewCoins (src : Source) (coins : List GasCoin) (ok : Bool)
  /-- A chunk fetch of `get_latest_gas_objects` failed; it is retried. -/
  | lookupFailed (src : Source)
  /-- `expire_coins`, with the reservations it expired and the coin ids it returned. -/
  | expireCoins (rs : List ReservationID) (ids : List ObjectID) (ok : Bool)
  /-- `GasPoolContainer::drop` sent the cancellation. -/
  | containerDrop
deriving DecidableEq, Repr

/-- The call of `execute_transaction` an event belongs to. -/
def Event.call? : Event → Option ℕ
  | .ready t _ _ | .sign t _ | .submit t | .updateUsage t => some t
  | .addNewCoins (.call t) _ _ | .lookupFailed (.call t) => some t
  | _ => none

/-- The system's state. `calls t` is the call with handle `t`, if any. -/
structure State where
  store : Store
  ledger : Ledger
  fullnode : Ledger
  now : ℕ
  calls : ℕ → Option Call
  sweeper : Sweeper
  cancelSent : Bool
  log : List Event

/-- What the chain does with a submitted transaction. -/
inductive SubmitResult
  /-- Executed, charging `n`; the effects come back. -/
  | executed (n : I64) (digest : ObjectDigest)
  /-- Executed, charging `n`; the call still fails (e.g. no effects came back in time). -/
  | lost (n : I64) (digest : ObjectDigest)
  /-- Not executed by the time the submission returns an error; the call fails. The chain may
  still execute it later (`Action.settle`). -/
  | rejected
deriving DecidableEq, Repr

/-- How the awaited operation of a step ends. -/
inductive Outcome
  /-- The store call or signing succeeds, or the unlocker's sleep ends. -/
  | ok
  /-- The store call, signing or a chunk fetch of a lookup fails. -/
  | fail
  /-- The unlocker's `select!` takes the cancellation. -/
  | cancel
  /-- A lookup whose chunk tasks complete in `order`. -/
  | read (order : List ℕ)
  /-- A submission. -/
  | submit (r : SubmitResult)
deriving DecidableEq, Repr

/-- The system's actions. -/
inductive Action
  /-- `reserve_gas(sponsor, gas_budget, duration)`, the store selecting `coins`. -/
  | reserveGas (sponsor : Option SuiAddress) (gasBudget : U64) (durationMs : ℕ)
      (coins : List GasCoin)
  /-- A new call `t` of `execute_transaction(reservation_id, tx_data, ..)`. -/
  | executeTransaction (t : ℕ) (reservationId : ReservationID) (txData : TransactionData)
  /-- Call `t` runs to its next `.await`. -/
  | run (t : ℕ) (o : Outcome)
  /-- The caller of `t` drops its future. -/
  | drop (t : ℕ)
  /-- The coin-unlocker task runs to its next `.await`. -/
  | sweep (o : Outcome)
  /-- `GasPoolContainer::drop`. -/
  | containerDrop
  /-- Time passes. -/
  | tick (ms : ℕ)
  /-- A lagging fullnode catches up on one object. -/
  | sync (x : ObjectID)
  /-- The chain executes call `t`'s transaction, charging `n`, after its submission returned no
  effects. -/
  | settle (t : ℕ) (n : I64) (digest : ObjectDigest)
deriving DecidableEq

namespace State

/-- What the fullnode answers for each object. -/
def view (cfg : Config) (s : State) : ObjectID → SuiObjectResponse :=
  match cfg.fullnode with
  | .upToDate => fun x => GasCoin.toResponse (s.ledger x)
  | .lagging => fun x => GasCoin.toResponse (s.fullnode x)

/-- Record an event. -/
@[simps]
def emit (s : State) (e : Event) : State := { s with log := e :: s.log }

/-- Move call `t` to phase `p`. -/
@[simps]
def setPhase (s : State) (t : ℕ) (c : Call) (p : Phase) : State :=
  { s with calls := Function.update s.calls t (some { c with phase := p }) }

/-- The unlocker reaches its `select!`: a cancellation already sent wins at the first poll. -/
@[simps]
def enterSelect (s : State) : State :=
  { s with sweeper := if s.cancelSent then .exited else .select }

end State

/-! ## Steps -/

/-- The first run of `execute_transaction` up to its first `.await` and through it: the sponsor
and validity checks, then `ready_for_execution` (`gas_pool_core.rs:101-119`). -/
def startCall (cfg : Config) (s : State) (t : ℕ) (c : Call) (o : Outcome) : Option State :=
  if !cfg.signer.isValidAddress c.sponsor then
    some (s.setPhase t c (.rejected (.sponsorNotRegistered c.sponsor)))
  else match checkTransactionValidity c.txData with
    | .error msg => some (s.setPhase t c (.rejected (.invalidTransaction msg)))
    | .ok () =>
      match o, s.store.readyForExecution c.sponsor c.reservationId with
      | .ok, some store =>
        some (({ s with store := store }.setPhase t c .balance).emit (.ready t c.reservationId true))
      | .ok, none | .fail, _ =>
        some ((s.setPhase t c (.rejected .readyForExecutionFailed)).emit
          (.ready t c.reservationId false))
      | _, _ => none

/-- The submission (`gas_pool_core.rs:220-223`); on success the usage cap is updated next. -/
def submitCall (s : State) (t : ℕ) (c : Call) (total : U64) : SubmitResult → Option State
  | .executed n digest =>
    (s.ledger.execute c.sponsor c.txData.gasData.payment n digest).map fun (ledger, effects) =>
      ({ s with ledger }.setPhase t c (.usage total effects)).emit (.submit t)
  | .lost n digest =>
    (s.ledger.execute c.sponsor c.txData.gasData.payment n digest).map fun (ledger, _) =>
      ({ s with ledger }.setPhase t c (.latest .executionFailed)).emit (.submit t)
  | .rejected => some ((s.setPhase t c (.latest .executionFailed)).emit (.submit t))

/-- One step of call `t` of `execute_transaction` (`gas_pool_core.rs:90-236`), from the
`.await` it waits at to the next. -/
def executeTransactionStep (cfg : Config) (s : State) (t : ℕ) (c : Call) (o : Outcome) :
    Option State :=
  let payment := c.txData.paymentIds
  match c.phase, o with
  | .start, o => startCall cfg s t c o
  | .balance, .fail | .latest _, .fail => some (s.emit (.lookupFailed (.call t)))
  | .balance, .read order =>
    if IsCompletionOrder payment order then
      some (s.setPhase t c (.sign (getTotalGasCoinBalance (s.view cfg) order payment) 0))
    else none
  | .sign total _, .ok => some ((s.setPhase t c (.submit total)).emit (.sign t true))
  | .sign total k, .fail =>
    some ((s.setPhase t c (if k + 1 < 3 then .sign total (k + 1) else .latest .signingFailed)).emit
      (.sign t false))
  | .submit total, .submit r => submitCall s t c total r
  | .usage total effects, _ =>
    some ((s.setPhase t c (.release [newGasCoin c.sponsor total effects] (.ok effects))).emit
      (.updateUsage t))
  | .latest e, .read order =>
    if IsCompletionOrder payment order then
      some (s.setPhase t c (.release (latestGasCoins (s.view cfg) order payment) (.error e)))
    else none
  | .release coins response, .ok =>
    let store := (s.store.addNewCoins coins).markTerminal c.reservationId
    some (({ s with store }.setPhase t c (.done response)).emit (.addNewCoins (.call t) coins true))
  | .release coins _, .fail => some (s.emit (.addNewCoins (.call t) coins false))
  | _, _ => none

/-- One step of the coin-unlocker loop (`gas_pool_core.rs:318-346`). -/
def coinUnlockStep (cfg : Config) (s : State) : Sweeper → Outcome → Option State
  | .top, .ok =>
    let (store, ids) := s.store.expireCoins s.now
    let s' := { s with store }.emit (.expireCoins (s.store.dueIds s.now) ids true)
    some (if ids = [] then s'.enterSelect else { s' with sweeper := .expired ids })
  | .top, .fail => some ((s.emit (.expireCoins [] [] false)).enterSelect)
  | .expired ids, .read order =>
    if IsCompletionOrder ids order then
      some { s with sweeper := .release (latestGasCoins (s.view cfg) order ids) }
    else none
  | .expired _, .fail => some (s.emit (.lookupFailed .sweeper))
  | .release coins, .ok =>
    some (({ s with store := s.store.addNewCoins coins }.emit
      (.addNewCoins .sweeper coins true)).enterSelect)
  | .release coins, .fail => some (s.emit (.addNewCoins .sweeper coins false))
  | .select, .ok => some { s with sweeper := .top }
  | .select, .cancel => if s.cancelSent then some { s with sweeper := .exited } else none
  | _, _ => none

/-- `GasPool::reserve_gas` (`gas_pool_core.rs:65-88`): the sponsor defaults to the signer's
first address. -/
def reserveGas (cfg : Config) (s : State) (sponsor : Option SuiAddress) (gasBudget : U64)
    (durationMs : ℕ) (coins : List GasCoin) : Option State :=
  let sponsor := sponsor.getD (cfg.signer.addresses.head cfg.signer.addresses_ne_nil)
  (s.store.reserveGasCoins s.now sponsor gasBudget durationMs coins).map
    fun (store, _) => { s with store }

/-- One step of the system. -/
def step (cfg : Config) (s : State) : Action → Option State
  | .reserveGas sponsor gasBudget durationMs coins =>
    reserveGas cfg s sponsor gasBudget durationMs coins
  | .executeTransaction t r txData =>
    if (s.calls t).isNone then
      some { s with calls := Function.update s.calls t (some ⟨r, txData, .start, false⟩) }
    else none
  | .run t o =>
    match s.calls t with
    | some c => if c.dropped then none else executeTransactionStep cfg s t c o
    | none => none
  | .drop t =>
    match s.calls t with
    | some c =>
      if c.dropped then none
      else some { s with calls := Function.update s.calls t (some { c with dropped := true }) }
    | none => none
  | .sweep o => coinUnlockStep cfg s s.sweeper o
  | .containerDrop =>
    if s.cancelSent then none else some ({ s with cancelSent := true }.emit .containerDrop)
  | .tick ms => some { s with now := s.now + ms }
  | .sync x => some { s with fullnode := Function.update s.fullnode x (s.ledger x) }
  | .settle t n digest =>
    match s.calls t with
    | some c =>
      if c.phase.inDoubt then
        (s.ledger.execute c.sponsor c.txData.gasData.payment n digest).map fun (ledger, _) =>
          { s with ledger }
      else none
    | none => none

/-! ## Runs -/

/-- The state the pool starts in: the sponsor coins of `pool` available, as they are on chain. -/
def init (pool : List GasCoin) : State where
  store := ⟨pool, fun _ => none, 0⟩
  ledger := fun x => pool.find? (·.id == x)
  fullnode := fun x => pool.find? (·.id == x)
  now := 0
  calls := fun _ => none
  sweeper := .top
  cancelSent := false
  log := []

/-- A pool of one coin of sponsor `0`: object `1` at version `1`, balance `10`. -/
def onePool : List GasCoin := [⟨0, (1, 1, 0), 10⟩]

/-- The states reachable from `s₀` by steps the environment `env` allows. -/
inductive Reaches (cfg : Config) (env : State → Action → Bool) (s₀ : State) : State → Prop
  | refl : Reaches cfg env s₀ s₀
  | tail {s s' : State} {a : Action} : Reaches cfg env s₀ s → env s a = true →
      step cfg s a = some s' → Reaches cfg env s₀ s'

/-- Every action is allowed. -/
def anyAction (_ : State) (_ : Action) : Bool := true

/-- Run the actions in order, each allowed by `env`. -/
def run (cfg : Config) (env : State → Action → Bool) : State → List Action → Option State
  | s, [] => some s
  | s, a :: as => if env s a then (step cfg s a).bind (run cfg env · as) else none

theorem Reaches.trans {cfg : Config} {env : State → Action → Bool} {s₀ s₁ s₂ : State}
    (h₁ : Reaches cfg env s₀ s₁) (h₂ : Reaches cfg env s₁ s₂) : Reaches cfg env s₀ s₂ := by
  induction h₂ with
  | refl => exact h₁
  | tail _ henv hstep ih => exact .tail ih henv hstep

/-- A run one environment allows, any environment that allows more allows too. -/
theorem Reaches.mono {cfg : Config} {env env' : State → Action → Bool} {s₀ s : State}
    (h : Reaches cfg env s₀ s) (hle : ∀ s a, env s a = true → env' s a = true) :
    Reaches cfg env' s₀ s := by
  induction h with
  | refl => exact .refl
  | tail _ henv hs ih => exact .tail ih (hle _ _ henv) hs

theorem reaches_of_run {cfg : Config} {env : State → Action → Bool} :
    ∀ {s s' : State} (as : List Action), run cfg env s as = some s' → Reaches cfg env s s'
  | s, s', [], h => by cases h; exact .refl
  | s, s', a :: as, h => by
    simp only [run] at h
    split_ifs at h with henv
    cases hstep : step cfg s a with
    | none => simp [hstep] at h
    | some s₁ =>
      rw [hstep, Option.some_bind] at h
      exact (Reaches.tail .refl henv hstep).trans (reaches_of_run as h)

/-- The state a run of the actions `as` from `s₀` ends in; `s₀` when the run gets stuck. -/
def runState (cfg : Config) (env : State → Action → Bool) (s₀ : State) (as : List Action) :
    State :=
  (run cfg env s₀ as).getD s₀

theorem run_eq_some_runState {cfg : Config} {env : State → Action → Bool} {s₀ : State}
    {as : List Action} (h : (run cfg env s₀ as).isSome) :
    run cfg env s₀ as = some (runState cfg env s₀ as) := by
  obtain ⟨s, hs⟩ := Option.isSome_iff_exists.1 h
  rw [runState, hs, Option.getD_some]

theorem reaches_runState {cfg : Config} {env : State → Action → Bool} {s₀ : State}
    (as : List Action) (h : (run cfg env s₀ as).isSome) :
    Reaches cfg env s₀ (runState cfg env s₀ as) :=
  reaches_of_run as (run_eq_some_runState h)

/-- A property preserved by every allowed step holds of every state reachable from a state
where it holds. -/
theorem Reaches.rec_inv {cfg : Config} {env : State → Action → Bool} {s₀ s : State}
    {P : State → Prop} (h : Reaches cfg env s₀ s) (h₀ : P s₀)
    (hstep : ∀ s a s', P s → env s a = true → step cfg s a = some s' → P s') : P s := by
  induction h with
  | refl => exact h₀
  | tail _ henv hs ih => exact hstep _ _ _ ih henv hs

end GasPool

import GasPool.System.Defs

/-!
# What one step can do

One inversion per step function: `CallStep` lists every transition a call of
`execute_transaction` can take from one `.await` to the next, and `SweepStep` every transition
of the coin-unlocker loop. The invariants of the later modules are proved by a case split over
these named transitions, never by unfolding the step functions again. The last section computes
the unlocker's step from each of its `.await`s, for the runs of whole iterations.
-/

namespace GasPool

/-- The transitions of call `t` of `execute_transaction` (`gas_pool_core.rs:90-236`). -/
inductive CallStep (cfg : Config) (s : State) (t : ℕ) (c : Call) : State → Prop
  /-- The sponsor or validity check fails. -/
  | reject (e : ExecuteError) : c.phase = .start →
      CallStep cfg s t c (s.setPhase t c (.rejected e))
  /-- `ready_for_execution` fails. -/
  | readyFail : c.phase = .start →
      CallStep cfg s t c ((s.setPhase t c (.rejected .readyForExecutionFailed)).emit
        (.ready t c.reservationId false))
  /-- `ready_for_execution` succeeds: the commit point. -/
  | readyOk (store : Store) : c.phase = .start →
      s.store.readyForExecution c.sponsor c.reservationId = some store →
      CallStep cfg s t c (({ s with store }.setPhase t c .balance).emit
        (.ready t c.reservationId true))
  /-- A chunk fetch of a lookup fails; it is retried. -/
  | lookupFail : c.phase.awaitsLookup → CallStep cfg s t c (s.emit (.lookupFailed (.call t)))
  /-- The balance read before execution. -/
  | balance (order : List ℕ) : c.phase = .balance →
      IsCompletionOrder c.txData.paymentIds order →
      CallStep cfg s t c (s.setPhase t c
        (.sign (getTotalGasCoinBalance (s.view cfg) order c.txData.paymentIds) 0))
  /-- A signing attempt succeeds. -/
  | signOk (total : U64) (k : ℕ) : c.phase = .sign total k →
      CallStep cfg s t c ((s.setPhase t c (.submit total)).emit (.sign t true))
  /-- A signing attempt fails. -/
  | signFail (total : U64) (k : ℕ) : c.phase = .sign total k →
      CallStep cfg s t c ((s.setPhase t c
        (if k + 1 < 3 then .sign total (k + 1) else .latest .signingFailed)).emit (.sign t false))
  /-- The chain executes the transaction and the effects come back. -/
  | executed (total : U64) (n : I64) (digest : ObjectDigest) (ledger : Ledger)
      (effects : Effects) : c.phase = .submit total →
      s.ledger.execute c.sponsor c.txData.gasData.payment n digest = some (ledger, effects) →
      CallStep cfg s t c (({ s with ledger }.setPhase t c (.usage total effects)).emit (.submit t))
  /-- The chain executes the transaction but the submission fails. -/
  | lost (total : U64) (n : I64) (digest : ObjectDigest) (ledger : Ledger) (effects : Effects) :
      c.phase = .submit total →
      s.ledger.execute c.sponsor c.txData.gasData.payment n digest = some (ledger, effects) →
      CallStep cfg s t c (({ s with ledger }.setPhase t c (.latest .executionFailed)).emit
        (.submit t))
  /-- The submission fails and the chain does not execute the transaction. -/
  | unexecuted (total : U64) : c.phase = .submit total →
      CallStep cfg s t c ((s.setPhase t c (.latest .executionFailed)).emit (.submit t))
  /-- The usage cap is updated; the gas object of the effects is to be released. -/
  | usage (total : U64) (effects : Effects) : c.phase = .usage total effects →
      CallStep cfg s t c ((s.setPhase t c
        (.release [newGasCoin c.sponsor total effects] (.ok effects))).emit (.updateUsage t))
  /-- The failure path's lookup; what it finds is to be released. -/
  | latest (e : ExecuteError) (order : List ℕ) : c.phase = .latest e →
      IsCompletionOrder c.txData.paymentIds order →
      CallStep cfg s t c (s.setPhase t c
        (.release (latestGasCoins (s.view cfg) order c.txData.paymentIds) (.error e)))
  /-- `add_new_coins` succeeds: the coins are back and the reservation is TERMINAL. -/
  | releaseOk (coins : List GasCoin) (response : Except ExecuteError Effects) :
      c.phase = .release coins response →
      CallStep cfg s t c (({ s with
        store := ((s.store.addNewCoins coins).markTerminal c.reservationId) }.setPhase t c
          (.done response)).emit (.addNewCoins (.call t) coins true))
  /-- `add_new_coins` fails; it is retried. -/
  | releaseFail (coins : List GasCoin) (response : Except ExecuteError Effects) :
      c.phase = .release coins response →
      CallStep cfg s t c (s.emit (.addNewCoins (.call t) coins false))

theorem callStep_of_startCall {cfg : Config} {s s' : State} {t : ℕ} {c : Call} {o : Outcome}
    (hc : c.phase = .start) (h : startCall cfg s t c o = some s') : CallStep cfg s t c s' := by
  unfold startCall at h
  split_ifs at h
  · cases h; exact .reject _ hc
  · split at h
    · cases h; exact .reject _ hc
    · split at h
      · cases h; exact .readyOk _ hc ‹_›
      · cases h; exact .readyFail hc
      · cases h; exact .readyFail hc
      · cases h

theorem callStep_of_submitCall {cfg : Config} {s s' : State} {t : ℕ} {c : Call} {total : U64}
    {r : SubmitResult} (hc : c.phase = .submit total) (h : submitCall s t c total r = some s') :
    CallStep cfg s t c s' := by
  cases r with
  | executed n digest =>
    obtain ⟨⟨ledger, effects⟩, hex, rfl⟩ := Option.map_eq_some'.1 h
    exact .executed total n digest ledger effects hc hex
  | lost n digest =>
    obtain ⟨⟨ledger, effects⟩, hex, rfl⟩ := Option.map_eq_some'.1 h
    exact .lost total n digest ledger effects hc hex
  | rejected =>
    cases h
    exact .unexecuted total hc

/-- Every step of a call is one of the `CallStep` transitions. -/
theorem callStep_of_executeTransactionStep {cfg : Config} {s s' : State} {t : ℕ} {c : Call}
    {o : Outcome} (h : executeTransactionStep cfg s t c o = some s') : CallStep cfg s t c s' := by
  unfold executeTransactionStep at h
  dsimp only at h
  split at h
  · exact callStep_of_startCall ‹_› h
  · cases h
    exact .lookupFail (by simp [Phase.awaitsLookup, *])
  · cases h
    exact .lookupFail (by simp [Phase.awaitsLookup, *])
  · split_ifs at h
    cases h
    exact .balance _ ‹_› ‹_›
  · cases h
    exact .signOk _ _ ‹_›
  · cases h
    exact .signFail _ _ ‹_›
  · exact callStep_of_submitCall ‹_› h
  · cases h
    exact .usage _ _ ‹_›
  · split_ifs at h
    cases h
    exact .latest _ _ ‹_› ‹_›
  · cases h
    exact .releaseOk _ _ ‹_›
  · cases h
    exact .releaseFail _ _ ‹_›
  · cases h

/-- A step of a call at its start is a step of `startCall`: the checks that `CallStep` forgets
can be read off it. -/
theorem startCall_of_step {cfg : Config} {s s' : State} {t : ℕ} {c : Call} {o : Outcome}
    (h : step cfg s (.run t o) = some s') (hc : s.calls t = some c) (hstart : c.phase = .start) :
    startCall cfg s t c o = some s' := by
  simp only [step, hc] at h
  split_ifs at h
  unfold executeTransactionStep at h
  rw [hstart] at h
  exact h

/-- A call's step leaves the unlocker, the cancellation and the clock alone, and logs at most
one event, of that call. -/
theorem CallStep.frame {cfg : Config} {s s' : State} {t : ℕ} {c : Call}
    (h : CallStep cfg s t c s') :
    s'.sweeper = s.sweeper ∧ s'.cancelSent = s.cancelSent ∧ s'.now = s.now ∧
      (s'.log = s.log ∨ ∃ e, e.call? = some t ∧ s'.log = e :: s.log) := by
  cases h <;> refine ⟨rfl, rfl, rfl, ?_⟩
  all_goals first | exact .inl rfl | (refine .inr ⟨_, ?_, rfl⟩; rfl)

/-- The transitions of the coin-unlocker loop (`gas_pool_core.rs:318-346`). -/
inductive SweepStep (cfg : Config) (s : State) : State → Prop
  /-- `expire_coins` returns no coin: on to the `select!`. -/
  | expireNone : s.sweeper = .top → (s.store.expireCoins s.now).2 = [] →
      SweepStep cfg s (({ s with store := (s.store.expireCoins s.now).1 }.emit
        (.expireCoins (s.store.dueIds s.now) (s.store.expireCoins s.now).2 true)).enterSelect)
  /-- `expire_coins` returns coins to look up. -/
  | expireSome : s.sweeper = .top → (s.store.expireCoins s.now).2 ≠ [] →
      SweepStep cfg s { ({ s with store := (s.store.expireCoins s.now).1 }.emit
        (.expireCoins (s.store.dueIds s.now) (s.store.expireCoins s.now).2 true)) with
        sweeper := .expired (s.store.expireCoins s.now).2 }
  /-- `expire_coins` fails: on to the `select!`. -/
  | expireFail : s.sweeper = .top →
      SweepStep cfg s ((s.emit (.expireCoins [] [] false)).enterSelect)
  /-- The lookup of the expired coins. -/
  | lookup (ids : List ObjectID) (order : List ℕ) : s.sweeper = .expired ids →
      IsCompletionOrder ids order →
      SweepStep cfg s { s with sweeper := .release (latestGasCoins (s.view cfg) order ids) }
  /-- A chunk fetch of the lookup fails; it is retried. -/
  | lookupFail (ids : List ObjectID) : s.sweeper = .expired ids →
      SweepStep cfg s (s.emit (.lookupFailed .sweeper))
  /-- `add_new_coins` succeeds: on to the `select!`. -/
  | releaseOk (coins : List GasCoin) : s.sweeper = .release coins →
      SweepStep cfg s (({ s with store := s.store.addNewCoins coins }.emit
        (.addNewCoins .sweeper coins true)).enterSelect)
  /-- `add_new_coins` fails; it is retried. -/
  | releaseFail (coins : List GasCoin) : s.sweeper = .release coins →
      SweepStep cfg s (s.emit (.addNewCoins .sweeper coins false))
  /-- The sleep ends first: back to the loop head. -/
  | wake : s.sweeper = .select → SweepStep cfg s { s with sweeper := .top }
  /-- The cancellation is taken: the loop ends. -/
  | cancel : s.sweeper = .select → s.cancelSent = true →
      SweepStep cfg s { s with sweeper := .exited }

/-- Every step of the coin-unlocker loop is one of the `SweepStep` transitions. -/
theorem sweepStep_of_coinUnlockStep {cfg : Config} {s s' : State} {o : Outcome}
    (h : coinUnlockStep cfg s s.sweeper o = some s') : SweepStep cfg s s' := by
  generalize hsw : s.sweeper = sw at h
  cases sw <;> cases o <;> simp only [coinUnlockStep] at h <;> (try split_ifs at h) <;>
    (try cases h)
  all_goals first
    | exact .expireNone hsw ‹_›
    | exact .expireSome hsw ‹_›
    | exact .expireFail hsw
    | exact .lookup _ _ hsw ‹_›
    | exact .lookupFail _ hsw
    | exact .releaseOk _ hsw
    | exact .releaseFail _ hsw
    | exact .wake hsw
    | exact .cancel hsw ‹_›

/-- The transitions of the system, by the action taken. -/
inductive Step (cfg : Config) (s : State) : Action → State → Prop
  /-- `reserve_gas`: the store reserves `coins` for the sponsor, by default the signer's first
  address. -/
  | reserveGas (sponsor : Option SuiAddress) (gasBudget : U64) (durationMs : ℕ)
      (coins : List GasCoin) (store : Store) (r : ReservationID) :
      s.store.reserveGasCoins s.now (sponsor.getD (cfg.signer.addresses.head
        cfg.signer.addresses_ne_nil)) gasBudget durationMs coins = some (store, r) →
      Step cfg s (.reserveGas sponsor gasBudget durationMs coins) { s with store }
  /-- A new call of `execute_transaction`. -/
  | executeTransaction (t : ℕ) (r : ReservationID) (txData : TransactionData) :
      s.calls t = none →
      Step cfg s (.executeTransaction t r txData)
        { s with calls := Function.update s.calls t (some ⟨r, txData, .start, false⟩) }
  /-- A step of a call. -/
  | call (t : ℕ) (o : Outcome) (c : Call) (s' : State) : s.calls t = some c → c.dropped = false →
      CallStep cfg s t c s' → Step cfg s (.run t o) s'
  /-- A caller drops its future. -/
  | drop (t : ℕ) (c : Call) : s.calls t = some c → c.dropped = false →
      Step cfg s (.drop t)
        { s with calls := Function.update s.calls t (some { c with dropped := true }) }
  /-- A step of the coin-unlocker loop. -/
  | sweep (o : Outcome) (s' : State) : SweepStep cfg s s' → Step cfg s (.sweep o) s'
  /-- `GasPoolContainer::drop` sends the cancellation. -/
  | containerDrop : s.cancelSent = false →
      Step cfg s .containerDrop ({ s with cancelSent := true }.emit .containerDrop)
  /-- Time passes. -/
  | tick (ms : ℕ) : Step cfg s (.tick ms) { s with now := s.now + ms }
  /-- The lagging fullnode catches up on one object. -/
  | sync (x : ObjectID) :
      Step cfg s (.sync x) { s with fullnode := Function.update s.fullnode x (s.ledger x) }
  /-- The chain executes a transaction whose submission returned no effects. -/
  | settle (t : ℕ) (n : I64) (digest : ObjectDigest) (c : Call) (ledger : Ledger)
      (effects : Effects) : s.calls t = some c → c.phase.inDoubt →
      s.ledger.execute c.sponsor c.txData.gasData.payment n digest = some (ledger, effects) →
      Step cfg s (.settle t n digest) { s with ledger }

/-- Every step of the system is one of the `Step` transitions. -/
theorem Step.of_step {cfg : Config} {s s' : State} {a : Action} (h : step cfg s a = some s') :
    Step cfg s a s' := by
  cases a with
  | reserveGas sponsor gasBudget durationMs coins =>
    obtain ⟨⟨store, r⟩, hres, rfl⟩ := Option.map_eq_some'.1 h
    exact .reserveGas _ _ _ _ store r hres
  | executeTransaction t r txData =>
    simp only [step] at h
    split_ifs at h with hnone
    cases h
    exact .executeTransaction t r txData (Option.isNone_iff_eq_none.1 hnone)
  | run t o =>
    simp only [step] at h
    split at h
    · split_ifs at h with hd
      exact .call t o _ s' ‹_› (by simpa using hd) (callStep_of_executeTransactionStep h)
    · cases h
  | drop t =>
    simp only [step] at h
    split at h
    · split_ifs at h with hd
      cases h
      exact .drop t _ ‹_› (by simpa using hd)
    · cases h
  | sweep o => exact .sweep o s' (sweepStep_of_coinUnlockStep h)
  | containerDrop =>
    simp only [step] at h
    split_ifs at h with hc
    cases h
    exact .containerDrop (by simpa using hc)
  | tick ms => cases h; exact .tick ms
  | sync x => cases h; exact .sync x
  | settle t n digest =>
    simp only [step] at h
    split at h
    · split_ifs at h with hd
      obtain ⟨⟨ledger, effects⟩, hex, rfl⟩ := Option.map_eq_some'.1 h
      exact .settle t n digest _ ledger effects ‹_› hd hex
    · cases h

/-- An invariant of every `Step` the environment allows holds along every run from a state
where it holds. -/
theorem Reaches.rec_step {cfg : Config} {env : State → Action → Bool} {s₀ s : State}
    {P : State → Prop} (h : Reaches cfg env s₀ s) (h₀ : P s₀)
    (hstep : ∀ s a s', P s → env s a = true → Step cfg s a s' → P s') : P s :=
  h.rec_inv h₀ fun _ _ _ hP he hs => hstep _ _ _ hP he (.of_step hs)

/-- An invariant of every `Step` the environment allows from a reachable state holds of every
reachable state: the step may use what earlier invariants say of its reachable pre-state. -/
theorem Reaches.rec_reach {cfg : Config} {env : State → Action → Bool} {s₀ s : State}
    {P : State → Prop} (h : Reaches cfg env s₀ s) (h₀ : P s₀)
    (hstep : ∀ s a s', Reaches cfg env s₀ s → P s → env s a = true → Step cfg s a s' → P s') :
    P s := by
  induction h with
  | refl => exact h₀
  | tail hr henv hs ih => exact hstep _ _ _ hr ih henv (.of_step hs)

/-- A step of call `t` leaves every other call as it was. -/
theorem CallStep.calls_ne {cfg : Config} {s s' : State} {t : ℕ} {c : Call}
    (h : CallStep cfg s t c s') {t' : ℕ} (ht : t' ≠ t) : s'.calls t' = s.calls t' := by
  cases h <;> first | rfl | exact Function.update_noteq ht _ _

/-- A step of call `t` changes no other call, and keeps call `t`. -/
theorem CallStep.calls_isSome {cfg : Config} {s s' : State} {t : ℕ} {c : Call}
    (hc : s.calls t = some c) (h : CallStep cfg s t c s') (t' : ℕ) :
    (s'.calls t').isSome = (s.calls t').isSome := by
  by_cases ht : t' = t
  · subst ht
    cases h <;> first | rfl | simp [hc]
  · rw [h.calls_ne ht]

/-- A step of a call leaves the coins of every reservation as they were. -/
theorem CallStep.coinsOf {cfg : Config} {s s' : State} {t : ℕ} {c : Call}
    (h : CallStep cfg s t c s') (r : ReservationID) : s'.store.coinsOf r = s.store.coinsOf r := by
  cases h with
  | readyOk store _ hready => exact Store.coinsOf_readyForExecution hready r
  | _ => simp

/-- A step of a call leaves the sponsor of every reservation as it was. -/
theorem CallStep.sponsorOf {cfg : Config} {s s' : State} {t : ℕ} {c : Call}
    (h : CallStep cfg s t c s') (r : ReservationID) :
    s'.store.sponsorOf r = s.store.sponsorOf r := by
  cases h with
  | readyOk store _ hready => exact Store.sponsorOf_readyForExecution hready r
  | _ => simp

/-- Only the action that starts a call makes it exist. -/
theorem Step.calls_isSome {cfg : Config} {s s' : State} {a : Action} (h : Step cfg s a s')
    {t : ℕ} (ht : (s'.calls t).isSome) :
    (s.calls t).isSome ∨ ∃ r txData, a = .executeTransaction t r txData := by
  cases h with
  | executeTransaction t' r txData _ =>
    by_cases htt : t = t'
    · exact .inr ⟨r, txData, htt ▸ rfl⟩
    · exact .inl (by simpa [Function.update_noteq htt] using ht)
  | call _ _ _ _ hc _ hcall => exact .inl ((hcall.calls_isSome hc t).symm.trans ht)
  | drop t' c hc _ =>
    refine .inl ?_
    by_cases htt : t = t'
    · simp [htt, hc]
    · simpa [Function.update_noteq htt] using ht
  | sweep _ _ hsweep => exact .inl (by cases hsweep <;> exact ht)
  | _ => exact .inl ht

/-- A run creates only the calls its actions start. -/
theorem calls_isSome_of_run {cfg : Config} {env : State → Action → Bool} :
    ∀ {s s' : State} (as : List Action), run cfg env s as = some s' → ∀ t,
      (s'.calls t).isSome → (s.calls t).isSome ∨ ∃ r txData, .executeTransaction t r txData ∈ as
  | s, s', [], h, t, ht => by cases h; exact .inl ht
  | s, s', a :: as, h, t, ht => by
    simp only [run] at h
    split_ifs at h
    cases hstep : step cfg s a with
    | none => simp [hstep] at h
    | some s₁ =>
      rw [hstep, Option.some_bind] at h
      rcases calls_isSome_of_run as h t ht with h₁ | ⟨r, txData, hmem⟩
      · exact (Step.of_step hstep).calls_isSome h₁ |>.imp_right
          fun ⟨r, txData, ha⟩ => ⟨r, txData, ha ▸ List.mem_cons_self _ _⟩
      · exact .inr ⟨r, txData, List.mem_cons_of_mem _ hmem⟩

/-- The calls at the end of a run from a state without calls are those its actions start. -/
theorem calls_runState {cfg : Config} {env : State → Action → Bool} {s₀ : State}
    {as : List Action} (h : (run cfg env s₀ as).isSome) (h₀ : ∀ t, s₀.calls t = none) {t : ℕ}
    {c : Call} (hc : (runState cfg env s₀ as).calls t = some c) :
    ∃ r txData, .executeTransaction t r txData ∈ as :=
  (calls_isSome_of_run as (run_eq_some_runState h) t (by simp [hc])).resolve_left
    (by simp [h₀ t])

/-! ## The unlocker's steps, computed -/

section UnlockerSteps

variable {cfg : Config} {s : State}

end UnlockerSteps

end GasPool

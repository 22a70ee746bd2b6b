import GasPool.System.Custody

/-! # No coin is lost

The spec's rule that coins taken off the books by `ready_for_execution` must come back
(section 4.3): every object the chain still has stays in the pool's custody, available, under an
ACTIVE or IN_FLIGHT reservation, or with the coin unlocker on its way back (`Conserved`).

With honest callers it holds in every run, whatever the fullnode returns (`conserveInv_of_honest`),
late executions of a failed submission included: custody is by object id, and execution creates
no object. A call knows which of its payment coins the chain still has
(`Call.Covers`): after an execution only the gas object, which the success path releases; the
failure path's lookup finds every one, because even a lagging fullnode has some version of every
object the chain has (`Supports`). The unlocker's lookup finds every expired coin the same way.
When every call has returned or been rejected and the unlocker holds no coin, no reservation is
IN_FLIGHT, and every object on chain is available or ACTIVE (`no_coin_lost_of_honest`). A lagging
fullnode gets versions and balances wrong (`lagging_read_releases_stale_balance`), never which
coins exist.

Neither assumption can go: a foreign payment loses the reservation's coin
(`foreign_payment_loses_reserved_coin`), and a call dropped past its commit point never returns
and keeps its coins IN_FLIGHT for good (`dropped_call_never_returns_coin`).
-/

namespace GasPool

/-! ## Where coins go -/

/-- `add_new_coins` keeps every available id and adds the ids of the coins it is given. -/
theorem mem_ids_foldl_addCoin {available coins : List GasCoin} {x : ObjectID}
    (h : x ∈ ids available ∨ x ∈ ids coins) : x ∈ ids (coins.foldl Store.addCoin available) := by
  induction coins generalizing available with
  | nil => simpa using h
  | cons c coins ih =>
    have hadd : x ∈ ids available ∨ x = c.id → x ∈ ids (Store.addCoin available c) := by
      rintro (h | rfl) <;> unfold Store.addCoin <;> split
      · exact h
      · rw [ids_append]; exact List.mem_append_left _ h
      · obtain ⟨a, ha, hid⟩ := List.any_eq_true.1 ‹_›
        simp only [Bool.and_eq_true, beq_iff_eq] at hid
        exact hid.1 ▸ List.mem_map_of_mem _ ha
      · rw [ids_append]; exact List.mem_append_right _ (List.mem_singleton_self _)
    refine ih ?_
    rw [ids_cons, List.mem_cons] at h
    rcases h with h | h | h
    exacts [.inl (hadd (.inl h)), .inl (hadd (.inr h)), .inr h]

/-- Execution creates no object: an object on chain after it was on chain before. -/
theorem Ledger.isSome_of_execute {ledger ledger' : Ledger} {sponsor : SuiAddress}
    {payment : List ObjectRef} {n : I64} {digest : ObjectDigest} {effects : Effects}
    (h : ledger.execute sponsor payment n digest = some (ledger', effects)) {x : ObjectID}
    (hx : (ledger' x).isSome) : (ledger x).isSome := by
  obtain ⟨gas, rest, rfl, hacc, -, -, -, hkeep⟩ := Ledger.execute_eq_some h
  by_cases hp : x ∈ (gas :: rest).map (·.1)
  · obtain ⟨p, hmem, rfl⟩ := List.mem_map.1 hp
    have := hacc.2.2.1 p hmem
    cases hl : ledger p.1 <;> simp_all
  · rwa [← hkeep x hp]

theorem mem_custody {s : State} {x : ObjectID} :
    x ∈ custody s ↔
      x ∈ ids s.store.available ∨ x ∈ s.store.reservedIds ∨ x ∈ s.sweeper.pendingIds := by
  simp [custody, Store.heldIds, or_assoc]

/-! ## The invariant -/

/-- The fullnode has some version of every object the chain has. -/
def Supports (s : State) : Prop := ∀ x, (s.ledger x).isSome → (s.fullnode x).isSome

/-- What a call knows of which payment coins the chain still has: after an execution, only the
gas object of the effects; when it is to release coins, none outside them. -/
def Call.Covers (ledger : Ledger) (c : Call) : Prop :=
  match c.phase with
  | .usage _ effects => ∀ x ∈ c.txData.paymentIds, (ledger x).isSome → x = effects.gasObject.1
  | .release coins _ => ∀ x ∈ c.txData.paymentIds, (ledger x).isSome → x ∈ ids coins
  | .start | .rejected _ | .balance | .sign _ _ | .submit _ | .latest _ | .done _ => True

/-- Every object the chain still has is in the pool's custody. -/
def Conserved (s : State) : Prop := ∀ x, (s.ledger x).isSome → x ∈ custody s

/-- The conservation invariant: the fullnode supports the chain, every call knows which of its
payment coins the chain has, and every object on chain is in the pool's custody. -/
structure ConserveInv (s : State) : Prop where
  supports : Supports s
  calls : ∀ t c, s.calls t = some c → c.Covers s.ledger
  conserved : Conserved s

theorem conserveInv_init (pool : List GasCoin) : ConserveInv (init pool) where
  supports _ h := h
  calls _ _ h := nomatch h
  conserved x hx := by
    obtain ⟨c, hc⟩ := Option.isSome_iff_exists.1 hx
    have hmem := List.mem_map_of_mem GasCoin.id (List.mem_of_find?_eq_some hc)
    rw [find?_id hc] at hmem
    exact mem_custody.2 (.inl hmem)

/-- What a call knows of the chain survives any step that creates no object. -/
theorem Call.Covers.mono {ledger ledger' : Ledger} {c : Call} (h : c.Covers ledger)
    (hl : ∀ x, (ledger' x).isSome → (ledger x).isSome) : c.Covers ledger' := by
  obtain ⟨r, txData, phase, dropped⟩ := c
  cases phase with
  | usage _ _ | release _ _ => exact fun x hx hs => h x hx (hl x hs)
  | start | rejected _ | balance | sign _ _ | submit _ | latest _ | done _ => trivial

/-- A lookup finds every id the chain still has, whatever the fullnode returns. -/
theorem Supports.mem_ids_latest {s : State} (hsup : Supports s) (hi : CustodyInv s)
    (cfg : Config) {order : List ℕ} {xs : List ObjectID} (horder : IsCompletionOrder xs order)
    {x : ObjectID} (hx : x ∈ xs) (hsome : (s.ledger x).isSome) :
    x ∈ ids (latestGasCoins (s.view cfg) order xs) := by
  unfold State.view
  split
  · exact mem_ids_latestGasCoins hi.ledger_id horder hx hsome
  · exact mem_ids_latestGasCoins hi.fullnode_id horder hx (hsup x hsome)

namespace ConserveInv

variable {cfg : Config} {s s' : State}

/-- Moving call `t` to a phase that knows which of its payment coins the chain has, the fullnode
and custody unchanged and no object created, keeps the invariant. -/
theorem of_phase (hv : ConserveInv s) {t : ℕ} {c : Call} {p : Phase}
    (hcalls : s'.calls = Function.update s.calls t (some { c with phase := p }))
    (hl : ∀ x, (s'.ledger x).isSome → (s.ledger x).isSome) (hf : s'.fullnode = s.fullnode)
    (hcus : custody s' = custody s) (hp : ({ c with phase := p } : Call).Covers s'.ledger) :
    ConserveInv s' := by
  refine ⟨fun x hx => hf ▸ hv.supports x (hl x hx), fun t' c' h => ?_,
    fun x hx => hcus ▸ hv.conserved x (hl x hx)⟩
  rw [hcalls] at h
  rcases CommitInv.update_eq_some h with ⟨-, rfl⟩ | ⟨-, h⟩
  exacts [hp, (hv.calls t' c' h).mono hl]

/-- A step that leaves the calls, the chain and the fullnode alone and keeps every object on
chain in custody keeps the invariant. -/
theorem of_custody (hv : ConserveInv s) (hcalls : s'.calls = s.calls)
    (hl : s'.ledger = s.ledger) (hf : s'.fullnode = s.fullnode)
    (hmem : ∀ x, (s.ledger x).isSome → x ∈ custody s → x ∈ custody s') : ConserveInv s' := by
  refine ⟨fun x hx => ?_, fun t c h => ?_, fun x hx => ?_⟩
  · rw [hf]; exact hv.supports x (hl ▸ hx)
  · rw [hl]; exact hv.calls t c (hcalls ▸ h)
  · rw [hl] at hx; exact hmem x hx (hv.conserved x hx)

/-- A committed call's successful `add_new_coins` returns every payment coin the chain still
has. -/
theorem releaseOk (hv : ConserveInv s) (hi : CustodyInv s) (hcom : CommitInv s) {t : ℕ}
    {c : Call} {coins : List GasCoin} {response : Except ExecuteError Effects}
    (hc : s.calls t = some c) (hphase : c.phase = .release coins response) :
    ConserveInv (({ s with store := (s.store.addNewCoins coins).markTerminal c.reservationId
      }.setPhase t c (.done response)).emit (.addNewCoins (.call t) coins true)) := by
  have hcov := hv.calls t c hc
  simp only [Call.Covers, hphase] at hcov
  have hflight : (s.store.addNewCoins coins).statusOf c.reservationId = some .inFlight := by
    simpa [hphase, Phase.isDone] using hcom.committed_status t c hc (by rw [hphase]; rfl)
  have hperm := Store.reservedIds_markTerminal hflight (hi.calls t c hc).reserved
  refine ⟨hv.supports, fun t' c' h => ?_, fun x hx => ?_⟩
  · rcases CommitInv.update_eq_some h with ⟨-, rfl⟩ | ⟨-, h⟩
    exacts [trivial, hv.calls t' c' h]
  · have hmem := mem_custody.1 (hv.conserved x hx)
    refine mem_custody.2 ?_
    dsimp only [State.emit_store, State.setPhase_store, State.emit_sweeper,
      State.setPhase_sweeper, Store.markTerminal_available, Store.addNewCoins]
    rcases hmem with h | h | h
    · exact .inl (mem_ids_foldl_addCoin (.inl h))
    · rcases List.mem_append.1 (hperm.subset h) with h | h
      · exact .inr (.inl h)
      · exact .inl (mem_ids_foldl_addCoin
          (.inr (hcov x ((hi.calls t c hc).perm.symm.subset h) hx)))
    · exact .inr (.inr h)

/-- Every step of a call keeps the invariant, with honest callers and whatever the fullnode
returns. -/
theorem callStep (hv : ConserveInv s) (hi : CustodyInv s) (hcom : CommitInv s) {t : ℕ}
    {c : Call} (hc : s.calls t = some c) (h : CallStep cfg s t c s') : ConserveInv s' := by
  have hcov := hv.calls t c hc
  cases h with
  | reject _ _ | readyFail _ | balance _ _ _ | signOk _ _ _ | unexecuted _ _ =>
    exact hv.of_phase rfl (fun _ h => h) rfl rfl trivial
  | signFail total k _ =>
    refine hv.of_phase rfl (fun _ h => h) rfl rfl ?_
    show Call.Covers _ { c with phase := if k + 1 < 3 then _ else _ }
    split <;> trivial
  | readyOk store _ hready =>
    refine hv.of_phase rfl (fun _ h => h) rfl ?_ trivial
    show store.heldIds ++ s.sweeper.pendingIds = custody s
    rw [Store.heldIds_readyForExecution hready]
    rfl
  | executed _ n digest ledger effects _ hex =>
    refine hv.of_phase rfl (fun _ => Ledger.isSome_of_execute hex) rfl rfl fun x hx hsome => ?_
    obtain ⟨gas, rest, hpay, -, rfl, -, hrest, -⟩ := Ledger.execute_eq_some hex
    by_contra hxg
    rw [TransactionData.paymentIds, hpay, List.map_cons, List.mem_cons] at hx
    simp [hrest x (hx.resolve_left hxg) hxg] at hsome
  | lost _ _ _ ledger _ _ hex =>
    exact hv.of_phase rfl (fun _ => Ledger.isSome_of_execute hex) rfl rfl trivial
  | usage total effects hp =>
    simp only [Call.Covers, hp] at hcov
    exact hv.of_phase rfl (fun _ h => h) rfl rfl
      fun x hx hsome => List.mem_singleton.2 (hcov x hx hsome)
  | latest e order _ horder =>
    exact hv.of_phase rfl (fun _ h => h) rfl rfl
      fun x hx hsome => hv.supports.mem_ids_latest hi cfg horder hx hsome
  | releaseOk coins response hp => exact hv.releaseOk hi hcom hc hp
  | lookupFail _ | releaseFail _ _ _ => exact ⟨hv.supports, hv.calls, hv.conserved⟩

/-- Every step of the coin unlocker keeps the invariant, whatever the fullnode returns. -/
theorem sweep (hv : ConserveInv s) (hi : CustodyInv s) (h : SweepStep cfg s s') :
    ConserveInv s' := by
  have hexp : ∀ x, s.sweeper = .top → x ∈ custody s →
      x ∈ ids s.store.available ∨ x ∈ (s.store.expireCoins s.now).1.reservedIds ∨
        x ∈ (s.store.expireCoins s.now).2 := fun x hsw hx => by
    rw [mem_custody, hsw] at hx
    rcases hx with h | h | h
    · exact .inl h
    · exact .inr (List.mem_append.1 ((Store.reservedIds_expireCoins s.store s.now).subset h))
    · cases h
  cases h with
  | expireNone hsw hnil =>
    refine hv.of_custody rfl rfl rfl fun x _ hx => ?_
    rcases hexp x hsw hx with h | h | h
    · exact mem_custody.2 (.inl h)
    · exact mem_custody.2 (.inr (.inl h))
    · rw [hnil] at h; cases h
  | expireSome hsw _ =>
    exact hv.of_custody rfl rfl rfl fun x _ hx => mem_custody.2 (hexp x hsw hx)
  | expireFail hsw =>
    refine hv.of_custody rfl rfl rfl fun x _ hmem => ?_
    rw [mem_custody, hsw] at hmem
    rw [mem_custody, pendingIds_enterSelect]
    simpa using hmem
  | lookup xs order hsw horder =>
    refine hv.of_custody rfl rfl rfl fun x hx hmem => ?_
    rw [mem_custody, hsw] at hmem
    exact mem_custody.2
      (hmem.imp_right (Or.imp_right fun h => hv.supports.mem_ids_latest hi cfg horder h hx))
  | releaseOk coins hsw =>
    refine hv.of_custody rfl rfl rfl fun x _ hmem => ?_
    rw [mem_custody, hsw] at hmem
    rcases hmem with h | h | h
    · exact mem_custody.2 (.inl (mem_ids_foldl_addCoin (.inl h)))
    · exact mem_custody.2 (.inr (.inl h))
    · exact mem_custody.2 (.inl (mem_ids_foldl_addCoin (.inr h)))
  | wake hsw | cancel hsw _ =>
    exact hv.of_custody rfl rfl rfl fun x _ hmem => by simpa [mem_custody, hsw] using hmem
  | lookupFail _ _ | releaseFail _ _ => exact ⟨hv.supports, hv.calls, hv.conserved⟩

/-- Every step with honest callers keeps the invariant, whatever the fullnode returns. -/
theorem step (hv : ConserveInv s) (hi : CustodyInv s) (hcom : CommitInv s) {a : Action}
    (h : Step cfg s a s') : ConserveInv s' := by
  cases h with
  | reserveGas _ _ _ _ store r hres =>
    refine hv.of_custody rfl rfl rfl fun x _ hmem => ?_
    exact List.mem_append.2 ((List.mem_append.1 hmem).imp
      (fun h => (Store.heldIds_reserveGasCoins hres).symm.subset h) id)
  | executeTransaction t r txData _ =>
    exact hv.of_phase (c := ⟨r, txData, .start, false⟩) rfl (fun _ h => h) rfl rfl trivial
  | call t o c s' hc _ hcall => exact hv.callStep hi hcom hc hcall
  | drop t c hc _ =>
    refine ⟨hv.supports, fun t' c' h => ?_, hv.conserved⟩
    rcases CommitInv.update_eq_some h with ⟨-, rfl⟩ | ⟨-, h⟩
    exacts [hv.calls t c hc, hv.calls t' c' h]
  | sweep o s' hsweep => exact hv.sweep hi hsweep
  | containerDrop _ | tick _ => exact ⟨hv.supports, hv.calls, hv.conserved⟩
  | settle _ _ _ _ ledger _ _ _ hex =>
    have hl : ∀ x, (ledger x).isSome → (s.ledger x).isSome := fun _ => Ledger.isSome_of_execute hex
    exact ⟨fun x hx => hv.supports x (hl x hx), fun t c h => (hv.calls t c h).mono hl,
      fun x hx => hv.conserved x (hl x hx)⟩
  | sync x =>
    refine ⟨fun y hy => ?_, hv.calls, hv.conserved⟩
    show (Function.update s.fullnode x (s.ledger x) y).isSome
    rw [Function.update_apply]
    split_ifs with hyx
    · exact hyx ▸ hy
    · exact hv.supports y hy

end ConserveInv

/-- With honest callers, in every run from a pool of distinct coins and whatever the fullnode
returns, every object on chain is in the pool's custody. -/
theorem conserveInv_of_honest {cfg : Config} {pool : List GasCoin} {s : State}
    (hpool : (ids pool).Nodup) (hs : Reaches cfg honest (init pool) s) : ConserveInv s :=
  hs.rec_reach (conserveInv_init pool) fun _ _ _ hr hv _ h =>
    hv.step (custodyInv_of_honest hpool hr) (commitInv_of_reaches hr) h

/-- When every call has returned or been rejected, no reservation is IN_FLIGHT. -/
theorem CommitInv.not_inFlight {s : State} (hcom : CommitInv s)
    (hret : ∀ t c, s.calls t = some c → c.phase.isDone = true ∨ c.phase.committed = false)
    (r : ReservationID) : s.store.statusOf r ≠ some .inFlight := fun h => by
  obtain ⟨t, ht⟩ := hcom.ready_of_status r (.inl h)
  obtain ⟨c, hc, rfl, hcommitted⟩ := hcom.ready_committed t r ht
  have hdone := (hret t c hc).resolve_right (by simp [hcommitted])
  have := hcom.committed_status t c hc hcommitted
  simp [hdone, h] at this

/-- When every call has returned or been rejected and the unlocker holds no coin, an object in
custody is available or under an ACTIVE reservation. -/
theorem CommitInv.mem_offered_of_quiescent {s : State} (hcom : CommitInv s)
    (hret : ∀ t c, s.calls t = some c → c.phase.isDone = true ∨ c.phase.committed = false)
    (hidle : s.sweeper.pendingIds = []) {x : ObjectID} (hx : x ∈ custody s) :
    x ∈ ids s.store.available ∨
      ∃ r, s.store.statusOf r = some .active ∧ x ∈ ids (s.store.coinsOf r) := by
  rcases mem_custody.1 hx with h | h | h
  · exact .inl h
  · obtain ⟨r, -, hr⟩ := List.mem_flatMap.1 h
    unfold Store.heldBy at hr
    split at hr
    · exact .inr ⟨r, ‹_›, hr⟩
    · exact absurd ‹_› (hcom.not_inFlight hret r)
    · cases hr
  · rw [hidle] at h
    cases h

/-- No coin is lost, with honest callers, in every run from a pool of distinct coins and
whatever the fullnode returns: every object the chain still has is available, under an ACTIVE
or IN_FLIGHT reservation, or with the coin unlocker; and when every call has returned or been
rejected and the unlocker holds no coin, every object the chain still has is available or under
an ACTIVE reservation. -/
theorem no_coin_lost_of_honest {cfg : Config} {pool : List GasCoin} {s : State}
    (hpool : (ids pool).Nodup) (hs : Reaches cfg honest (init pool) s) :
    (∀ x, (s.ledger x).isSome → x ∈ custody s) ∧
      ((∀ t c, s.calls t = some c → c.phase.isDone = true ∨ c.phase.committed = false) →
        s.sweeper.pendingIds = [] → ∀ x, (s.ledger x).isSome →
          x ∈ ids s.store.available ∨
            ∃ r, s.store.statusOf r = some .active ∧ x ∈ ids (s.store.coinsOf r)) := by
  have hv := (conserveInv_of_honest hpool hs).conserved
  exact ⟨hv, fun hret hidle x hx =>
    (commitInv_of_reaches hs).mem_offered_of_quiescent hret hidle (hv x hx)⟩

/-- The one-coin pool under a lagging fullnode, after a call paid with its coin, the chain
charged `3`, and the call returned the new gas coin. -/
def returnedState : State :=
  runState (cfgOne .lagging) honest (init onePool)
    [.reserveGas none 5 1000 onePool,
      .executeTransaction 0 0 ⟨.programmableTransaction [], ⟨[(1, 1, 0)], 0⟩⟩,
      .run 0 .ok, .run 0 (.read [0]), .run 0 .ok, .run 0 (.submit (.executed 3 7)), .run 0 .ok,
      .run 0 .ok]

theorem no_coin_lost_of_honest_returnedState :
    (ids onePool).Nodup ∧ Reaches (cfgOne .lagging) honest (init onePool) returnedState ∧
      (∀ x, (returnedState.ledger x).isSome → x ∈ custody returnedState) ∧
      ((∀ t c, returnedState.calls t = some c →
          c.phase.isDone = true ∨ c.phase.committed = false) →
        returnedState.sweeper.pendingIds = [] → ∀ x, (returnedState.ledger x).isSome →
          x ∈ ids returnedState.store.available ∨ ∃ r,
            returnedState.store.statusOf r = some .active ∧
              x ∈ ids (returnedState.store.coinsOf r)) := by
  have hs : Reaches (cfgOne .lagging) honest (init onePool) returnedState :=
    reaches_runState _ (by decide)
  exact ⟨by decide, hs, no_coin_lost_of_honest (by decide) hs⟩

end GasPool

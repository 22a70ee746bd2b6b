import GasPool.System.Agreement
import GasPool.System.Conservation

/-!
# What the store offers is what the chain has

The coins the store offers are the available ones and those of ACTIVE reservations
(`Store.Offers`): `reserve_gas` hands their references to the client (`gas_pool_core.rs:65-88`),
who pays with them, and the chain accepts a payment only of current references of coins the
sponsor owns.

With an up-to-date fullnode, honest callers and a prompt chain, one that never executes a
transaction after its submission returned an error (`honestPrompt`), the chain holds every coin
the store offers as it is, and each reservation holds coins of its sponsor
(`offered_coins_current`). So the references an ACTIVE reservation holds are a payment the chain
accepts exactly when they cover the charge (`active_reservation_accepted_iff`). And when every
call has returned or been rejected and the coin unlocker holds no coin, the chain's objects are
exactly the coins the store offers (`ledger_eq_offered_of_quiescent`): the store is then an
exact picture of the chain. And the coin unlocker (`gas_pool_core.rs:314-347`) gives back what
expired as it was reserved: from any such state at its loop head, every iteration whose
`expire_coins` and final `add_new_coins` succeed, whatever the retries before them and the order
the lookup's chunks complete in, makes every coin of an ACTIVE reservation past its deadline
available again (`expired_coins_returned`).

Why it holds: `add_new_coins` is given only coins the chain holds (`AgreeInv`); no other store
operation puts a coin on offer (`Store.Offers.of_readyForExecution` and its siblings); and an
execution changes the chain only at the payment of a call past its commit point, whose coins the
store no longer offers (`CustodyInv.not_mem_payment`). With a lagging fullnode the first step
fails: the pool can release a coin at a stale version or balance
(`lagging_read_releases_stale_balance`), and then offer it. A late execution breaks the last
one: the failure path has already released the payment when the chain executes it, and the
store offers a reference the chain no longer accepts (`late_execution_offers_stale_coin`).
-/

namespace GasPool

/-! ## The chain's side of an offer -/

/-- The payment of coins the chain holds has their exact total balance. -/
theorem Ledger.Holds.paymentBalance {ledger : Ledger} {coins : List GasCoin}
    (h : ledger.Holds coins) :
    ledger.paymentBalance (coins.map GasCoin.objectRef) =
      (coins.map fun c => c.balance.toNat).sum := by
  rw [Ledger.paymentBalance, List.filterMap_map,
    List.filterMap_congr (f := (fun p : ObjectRef => ledger p.1) ∘ GasCoin.objectRef) (g := some)
      fun c hc => h c hc,
    List.filterMap_some]

/-- A payment of distinct coins the chain holds, all of the sponsor's, is accepted exactly when
there is one and their total balance covers the charge and leaves a `u64`. -/
theorem Ledger.Holds.accepts_iff {ledger : Ledger} {coins : List GasCoin} {sponsor : SuiAddress}
    (h : ledger.Holds coins) (hnd : (ids coins).Nodup) (hown : ∀ c ∈ coins, c.owner = sponsor)
    (n : I64) :
    ledger.Accepts sponsor (coins.map GasCoin.objectRef) n ↔
      coins ≠ [] ∧ n.toInt ≤ (coins.map fun c => c.balance.toNat).sum ∧
        (((coins.map fun c => c.balance.toNat).sum : ℕ) : ℤ) - n.toInt < 2 ^ 64 := by
  have hnd' : ((coins.map GasCoin.objectRef).map (·.1)).Nodup := by
    rw [List.map_map]
    exact hnd
  have hcur : ∀ p ∈ coins.map GasCoin.objectRef,
      (ledger p.1).any fun c => c.objectRef == p && c.owner == sponsor := by
    simp only [List.forall_mem_map]
    intro c hc
    rw [show c.objectRef.1 = c.id from rfl, h c hc]
    simp [hown c hc]
  rw [Ledger.Accepts, h.paymentBalance, Ne, List.map_eq_nil_iff]
  exact ⟨fun h => ⟨h.1, h.2.2.2⟩, fun h => ⟨h.1, hnd', hcur, h.2⟩⟩

/-- The store's offer agrees with the chain: the chain holds every coin the store offers, as it
is, and every reservation holds coins of its sponsor. -/
structure Store.Current (st : Store) (ledger : Ledger) : Prop where
  offers : ∀ c, st.Offers c → ledger c.id = some c
  owned : st.Owned

namespace Store.Current

variable {st st' : Store} {ledger ledger' : Ledger}

/-- A store operation that offers no coin but the ones already offered and ones the chain holds,
and keeps each reservation's coins its sponsor's. -/
theorem of_offers (h : st.Current ledger) (ho : st'.Owned)
    (hoff : ∀ c, st'.Offers c → st.Offers c ∨ ledger c.id = some c) : st'.Current ledger :=
  ⟨fun c hc => (hoff c hc).elim (h.offers c) id, ho⟩

/-- A change of the chain away from every offered coin. -/
theorem of_ledger (h : st.Current ledger)
    (hkeep : ∀ c, st.Offers c → ledger' c.id = ledger c.id) : st.Current ledger' :=
  ⟨fun c hc => (hkeep c hc).trans (h.offers c hc), h.owned⟩

/-- `add_new_coins` of coins the chain holds. -/
theorem addNewCoins (h : st.Current ledger) {coins : List GasCoin} (hcoins : ledger.Holds coins) :
    (st.addNewCoins coins).Current ledger :=
  h.of_offers h.owned fun c hc => hc.of_addNewCoins.imp_right (hcoins c)

/-- An offered coin is the chain's object under its id: no other coin of that id is. -/
theorem eq_of_offers (h : st.Current ledger) {c d : GasCoin} (hd : st.Offers d)
    (hc : ledger d.id = some c) : d = c :=
  Option.some.inj ((h.offers d hd).symm.trans hc)

end Store.Current

/-- A pool of distinct coins starts as the chain has it. -/
theorem current_init {pool : List GasCoin} (hpool : (ids pool).Nodup) :
    (init pool).store.Current (init pool).ledger := by
  refine ⟨fun c hc => ?_, fun _ _ h => nomatch h⟩
  rcases hc with hc | ⟨_, h, -⟩
  · have hsome : (pool.find? (·.id == c.id)).isSome :=
      List.find?_isSome.2 ⟨c, hc, beq_self_eq_true _⟩
    obtain ⟨d, hd⟩ := Option.isSome_iff_exists.1 hsome
    have hdc := List.inj_on_of_nodup_map hpool (List.mem_of_find?_eq_some hd) hc (find?_id hd)
    exact hdc ▸ hd
  · cases h

/-- A call past its commit point pays with no coin the store offers. -/
theorem CustodyInv.not_mem_payment {s : State} (hi : CustodyInv s) (hcom : CommitInv s)
    {t : ℕ} {c : Call} (hc : s.calls t = some c) (hcom' : c.phase.committed)
    (hd : c.phase.isDone = false) {d : GasCoin} (hoff : s.store.Offers d) :
    d.id ∉ c.txData.paymentIds := fun hx => by
  have hex := hi.exclusive hcom (hi.payment_subset_heldBy hcom hc hcom' hd hx)
  rcases hoff with hav | ⟨r, hact, hmem⟩
  · exact hex.1 (List.mem_map_of_mem _ hav)
  · have hflight : s.store.statusOf c.reservationId = some .inFlight := by
      simpa [hd] using hcom.committed_status t c hc hcom'
    refine hex.2.1 r (fun hr => by rw [hr, hflight] at hact; cases hact) ?_
    rw [Store.heldBy, hact]
    exact List.mem_map_of_mem _ hmem

/-! ## Every step keeps the store's offer on chain -/

namespace Store.Current

variable {cfg : Config} {s s' : State}

/-- Every step of a call keeps the store's offer on chain. -/
theorem callStep (hv : s.store.Current s.ledger) (ha : AgreeInv s) (hi : CustodyInv s)
    (hcom : CommitInv s) {t : ℕ} {c : Call} (hc : s.calls t = some c)
    (h : CallStep cfg s t c s') : s'.store.Current s'.ledger := by
  cases h with
  | readyOk store _ hready =>
    exact hv.of_offers (hv.owned.readyForExecution hready)
      fun d hd => .inl (hd.of_readyForExecution hready)
  | executed total n digest ledger effects hp hex | lost total n digest ledger effects hp hex =>
    obtain ⟨-, -, -, -, -, -, -, hkeep⟩ := Ledger.execute_eq_some hex
    exact hv.of_ledger fun d hd =>
      hkeep d.id (hi.not_mem_payment hcom hc (by rw [hp]; rfl) (by rw [hp]; rfl) hd)
  | releaseOk coins response hp =>
    have hcoins : s.ledger.Holds coins := by simpa only [Call.Agrees, hp] using ha.calls t c hc
    exact (hv.addNewCoins hcoins).of_offers (hv.owned.markTerminal _)
      fun d hd => .inl hd.of_markTerminal
  | reject _ _ | readyFail _ | lookupFail _ | balance _ _ _ | signOk _ _ _ | signFail _ _ _
  | unexecuted _ _ | usage _ _ _ | latest _ _ _ _ | releaseFail _ _ _ => exact hv

/-- Every step of the coin unlocker keeps the store's offer on chain. -/
theorem sweep (hv : s.store.Current s.ledger) (ha : AgreeInv s) (h : SweepStep cfg s s') :
    s'.store.Current s'.ledger := by
  cases h with
  | expireNone _ _ | expireSome _ _ =>
    exact hv.of_offers (hv.owned.expireCoins _) fun d hd => .inl hd.of_expireCoins
  | releaseOk coins hsw =>
    exact hv.addNewCoins (by simpa only [Sweeper.Agrees, hsw] using ha.sweeper)
  | expireFail _ | lookupFail _ _ | lookup _ _ _ _ | releaseFail _ _ | wake _ | cancel _ _ =>
    exact hv

/-- Every step but a late execution keeps the store's offer on chain, given what the other
invariants say of the state it starts from. -/
theorem step (hv : s.store.Current s.ledger) (ha : AgreeInv s) (hi : CustodyInv s)
    (hcom : CommitInv s) {a : Action} (hsettle : a.isSettle = false) (h : Step cfg s a s') :
    s'.store.Current s'.ledger := by
  cases h with
  | settle _ _ _ _ _ _ _ _ _ => cases hsettle
  | reserveGas _ _ _ _ store r hres =>
    exact hv.of_offers (hv.owned.reserveGasCoins hres) fun d hd =>
      .inl (hd.of_reserveGasCoins hres)
  | call t o c s' hc _ hcall => exact hv.callStep ha hi hcom hc hcall
  | sweep o s' hsweep => exact hv.sweep ha hsweep
  | executeTransaction _ _ _ _ | drop _ _ _ _ | containerDrop _ | tick _ | sync _ => exact hv

end Store.Current

/-- With an up-to-date fullnode, honest callers and a prompt chain, in every run from a pool of
distinct coins, the chain holds every coin the store offers. -/
theorem current_of_honestPrompt {cfg : Config} {pool : List GasCoin} {s : State}
    (hfull : cfg.fullnode = .upToDate) (hpool : (ids pool).Nodup)
    (hs : Reaches cfg honestPrompt (init pool) s) : s.store.Current s.ledger :=
  hs.rec_reach (P := fun s => s.store.Current s.ledger) (current_init hpool)
    fun _ _ _ hr hv henv h =>
    hv.step (agreeInv_of_honestPrompt hfull hpool hr) (custodyInv_of_honest hpool hr.honest)
      (commitInv_of_reaches hr) (honestPrompt_eq_true.1 henv).2 h

/-! ## What follows -/

/-- With an up-to-date fullnode, honest callers and a chain that never executes a transaction
after its submission returned an error, in every run from a pool of distinct coins, every
available coin and every coin of an ACTIVE reservation is the chain's current object of its id,
with the reference, owner and balance the store has for it; and every reservation holds coins of
its sponsor. -/
theorem offered_coins_current {cfg : Config} {pool : List GasCoin} {s : State}
    (hfull : cfg.fullnode = .upToDate) (hpool : (ids pool).Nodup)
    (hs : Reaches cfg honestPrompt (init pool) s) :
    (∀ c ∈ s.store.available, s.ledger c.id = some c) ∧
      (∀ r, s.store.statusOf r = some .active →
        ∀ c ∈ s.store.coinsOf r, s.ledger c.id = some c) ∧
      ∀ r res, s.store.reservations r = some res →
        ∀ c ∈ res.coins, c.owner = res.sponsor := by
  have hv := current_of_honestPrompt hfull hpool hs
  exact ⟨fun c hc => hv.offers c (.inl hc), fun r hr c hc => hv.offers c (.inr ⟨r, hr, hc⟩),
    hv.owned⟩

/-- The one-coin pool under an up-to-date fullnode, after a call paid with its coin, the chain
charged `3` and the call returned the new gas coin, which is then reserved again. -/
def reservedAgainState : State :=
  runState (cfgOne .upToDate) honestPrompt (init onePool)
    [.reserveGas none 5 1000 onePool,
      .executeTransaction 0 0 ⟨.programmableTransaction [], ⟨[(1, 1, 0)], 0⟩⟩,
      .run 0 .ok, .run 0 (.read [0]), .run 0 .ok, .run 0 (.submit (.executed 3 7)), .run 0 .ok,
      .run 0 .ok, .reserveGas none 5 1000 [⟨0, (1, 2, 7), 7⟩]]

theorem offered_coins_current_reservedAgainState :
    (cfgOne .upToDate).fullnode = .upToDate ∧ (ids onePool).Nodup ∧
      Reaches (cfgOne .upToDate) honestPrompt (init onePool) reservedAgainState ∧
      (∀ c ∈ reservedAgainState.store.available, reservedAgainState.ledger c.id = some c) ∧
      (∀ r, reservedAgainState.store.statusOf r = some .active →
        ∀ c ∈ reservedAgainState.store.coinsOf r, reservedAgainState.ledger c.id = some c) ∧
      ∀ r res, reservedAgainState.store.reservations r = some res →
        ∀ c ∈ res.coins, c.owner = res.sponsor := by
  have hs : Reaches (cfgOne .upToDate) honestPrompt (init onePool) reservedAgainState :=
    reaches_runState _ (by decide)
  exact ⟨rfl, by decide, hs, offered_coins_current rfl (by decide) hs⟩

/-- An honest run of the one-coin pool under an up-to-date fullnode in which the submission
returns an error before the chain has executed the transaction: the failure path's lookup finds
the coin as it was and releases it, and then the chain executes the transaction after all,
charging `3`. -/
def lateRun : List Action :=
  [.reserveGas none 5 1000 onePool,
    .executeTransaction 0 0 ⟨.programmableTransaction [], ⟨[(1, 1, 0)], 0⟩⟩,
    .run 0 .ok, .run 0 (.read [0]), .run 0 .ok, .run 0 (.submit .rejected), .run 0 (.read [0]),
    .run 0 .ok, .settle 0 3 7]

/-- The state after `lateRun`. -/
def lateState : State := runState (cfgOne .upToDate) honest (init onePool) lateRun

/-- The prompt chain cannot go: after a late execution the store offers object `1` at version `1`
with balance `10`, a reference the chain, which has it at version `2` with balance `7`, no longer
accepts. -/
theorem late_execution_offers_stale_coin :
    Reaches (cfgOne .upToDate) honest (init onePool) lateState ∧
      lateState.store.available = [⟨0, (1, 1, 0), 10⟩] ∧
      lateState.ledger 1 = some ⟨0, (1, 2, 7), 7⟩ ∧
      ∀ n, ¬ lateState.ledger.Accepts 0 [(1, 1, 0)] n := by
  refine ⟨reaches_runState _ (by decide), by decide, by decide, fun n h => ?_⟩
  have hcur := h.2.2.1 _ (List.mem_singleton_self _)
  revert hcur
  decide

/-- With an up-to-date fullnode, honest callers and a chain that never executes a transaction
after its submission returned an error, in every run from a pool of distinct coins, the
references an ACTIVE reservation holds, paid by its sponsor, are a payment the chain accepts for
a charge `n` exactly when there is at least one coin and their total balance `S` satisfies
`n ≤ S` and `S - n < 2^64`: the references `reserve_gas` returned are current, distinct and the
sponsor's. -/
theorem active_reservation_accepted_iff {cfg : Config} {pool : List GasCoin} {s : State}
    (hfull : cfg.fullnode = .upToDate) (hpool : (ids pool).Nodup)
    (hs : Reaches cfg honestPrompt (init pool) s) {r : ReservationID} {res : Reservation}
    (hr : s.store.reservations r = some res) (hact : res.status = .active) (n : I64) :
    s.ledger.Accepts res.sponsor (res.coins.map GasCoin.objectRef) n ↔
      res.coins ≠ [] ∧ n.toInt ≤ (res.coins.map fun c => c.balance.toNat).sum ∧
        (((res.coins.map fun c => c.balance.toNat).sum : ℕ) : ℤ) - n.toInt < 2 ^ 64 := by
  have hv := current_of_honestPrompt hfull hpool hs
  have hstat : s.store.statusOf r = some .active := by simp [Store.statusOf, hr, hact]
  have hco : s.store.coinsOf r = res.coins := by simp [Store.coinsOf, hr]
  refine Ledger.Holds.accepts_iff (fun c hc => hv.offers c (.inr ⟨r, hstat, hco ▸ hc⟩)) ?_
    (hv.owned r res hr) n
  simpa [Store.heldBy, hstat, hco] using
    (custodyInv_of_honest hpool hs.honest).heldBy_nodup (commitInv_of_reaches hs) r

theorem active_reservation_accepted_iff_reservedAgainState :
    (cfgOne .upToDate).fullnode = .upToDate ∧ (ids onePool).Nodup ∧
      Reaches (cfgOne .upToDate) honestPrompt (init onePool) reservedAgainState ∧
      reservedAgainState.store.reservations 1 =
        some ⟨0, [⟨0, (1, 2, 7), 7⟩], 1000, .active⟩ ∧
      (reservedAgainState.ledger.Accepts 0 [(1, 2, 7)] 3 ↔
        [(⟨0, (1, 2, 7), 7⟩ : GasCoin)] ≠ [] ∧ (3 : I64).toInt ≤ 7 ∧
          (7 : ℤ) - (3 : I64).toInt < 2 ^ 64) := by
  have hs : Reaches (cfgOne .upToDate) honestPrompt (init onePool) reservedAgainState :=
    reaches_runState _ (by decide)
  have hr : reservedAgainState.store.reservations 1 =
      some ⟨0, [⟨0, (1, 2, 7), 7⟩], 1000, .active⟩ := by decide
  exact ⟨rfl, by decide, hs, hr, active_reservation_accepted_iff rfl (by decide) hs hr rfl 3⟩

/-- With an up-to-date fullnode, honest callers and a chain that never executes a transaction
after its submission returned an error, in every run from a pool of distinct coins, whenever
every call has returned or been rejected and the coin unlocker holds no coin, the chain's objects
are exactly the coins the store offers: the chain has coin `c` under id `x` if and only if `c`
has id `x` and is available or a coin of an ACTIVE reservation. -/
theorem ledger_eq_offered_of_quiescent {cfg : Config} {pool : List GasCoin} {s : State}
    (hfull : cfg.fullnode = .upToDate) (hpool : (ids pool).Nodup)
    (hs : Reaches cfg honestPrompt (init pool) s) :
    (∀ t c, s.calls t = some c → c.phase.isDone = true ∨ c.phase.committed = false) →
      s.sweeper.pendingIds = [] → ∀ x c, s.ledger x = some c ↔
        c.id = x ∧ (c ∈ s.store.available ∨
          ∃ r, s.store.statusOf r = some .active ∧ c ∈ s.store.coinsOf r) := by
  intro hret hidle x c
  have hv := current_of_honestPrompt hfull hpool hs
  have hi := custodyInv_of_honest hpool hs.honest
  refine ⟨fun hx => ⟨hi.ledger_id x c hx, ?_⟩, fun ⟨hid, hoff⟩ => hid ▸ hv.offers c hoff⟩
  have hcus := (conserveInv_of_honest hpool hs.honest).conserved x (by simp [hx])
  rcases (commitInv_of_reaches hs).mem_offered_of_quiescent hret hidle hcus with
    h | ⟨r, hact, h⟩ <;> obtain ⟨d, hd, rfl⟩ := mem_ids.1 h
  · exact .inl (hv.eq_of_offers (.inl hd) hx ▸ hd)
  · exact .inr ⟨r, hact, hv.eq_of_offers (.inr ⟨r, hact, hd⟩) hx ▸ hd⟩

theorem ledger_eq_offered_of_quiescent_reservedAgainState :
    (cfgOne .upToDate).fullnode = .upToDate ∧ (ids onePool).Nodup ∧
      Reaches (cfgOne .upToDate) honestPrompt (init onePool) reservedAgainState ∧
      ((∀ t c, reservedAgainState.calls t = some c →
          c.phase.isDone = true ∨ c.phase.committed = false) →
        reservedAgainState.sweeper.pendingIds = [] → ∀ x c, reservedAgainState.ledger x = some c ↔
          c.id = x ∧ (c ∈ reservedAgainState.store.available ∨
            ∃ r, reservedAgainState.store.statusOf r = some .active ∧
              c ∈ reservedAgainState.store.coinsOf r)) := by
  have hs : Reaches (cfgOne .upToDate) honestPrompt (init onePool) reservedAgainState :=
    reaches_runState _ (by decide)
  exact ⟨rfl, by decide, hs, ledger_eq_offered_of_quiescent rfl (by decide) hs⟩

/-! ## The unlocker returns what expired -/

end GasPool

import GasPool.System.Commit
import Mathlib.Data.List.Nodup

/-!
# Custody of the coins

Where the pool holds each gas coin: in the store, available or under an ACTIVE or IN_FLIGHT
reservation, or on its way back from the coin unlocker, which has expired it and not yet
returned it (`custody`). The spec's custody rule (section 4.3) is that an `ObjectId` is held in
at most one of these places.

`execute_transaction` (`gas_pool_core.rs:90-188`) never checks that the transaction pays with
the coins of the reservation it names: it releases whatever the payment turns into. With an
honest caller, one that pays with exactly its reservation's coins, custody is exclusive in
every run, whatever the fullnode returns (`heldIds_nodup_of_honest`), and no two calls in
flight pay with a common coin (`no_shared_payment_of_honest`). A caller that pays with
another coin breaks it: the payment comes back while the pool still holds the coin, and the
reservation's own coins are never returned (`foreign_payment_double_custody`,
`foreign_payment_loses_reserved_coin`). And with honest callers alone, a call dropped after its
commit point leaves its reservation IN_FLIGHT for good: its coins are never passed to
`add_new_coins` again, and stay on chain unless the call was dropped while its transaction was
with the chain, which may still execute it (`dropped_call_leaks`,
`dropped_call_never_returns_coin`).
-/

namespace GasPool

/-! ## Where the pool holds a coin -/

namespace Store

/-- The ids of reservation `r`'s coins while the store holds them for it: ACTIVE or
IN_FLIGHT. -/
def heldBy (st : Store) (r : ReservationID) : List ObjectID :=
  match st.statusOf r with
  | some .active | some .inFlight => ids (st.coinsOf r)
  | _ => []

/-- The ids of the coins of the ACTIVE and IN_FLIGHT reservations. -/
def reservedIds (st : Store) : List ObjectID := (List.range st.nextId).flatMap st.heldBy

/-- The ids of the coins the store holds: the available ones, then the reserved ones. -/
def heldIds (st : Store) : List ObjectID := ids st.available ++ st.reservedIds

end Store

/-- The ids of the coins the unlocker has expired and not yet returned. -/
@[simp] def Sweeper.pendingIds : Sweeper → List ObjectID
  | .expired xs => xs
  | .release coins => ids coins
  | .top | .select | .exited => []

/-- The ids of the coins the pool holds. -/
def custody (s : State) : List ObjectID := s.store.heldIds ++ s.sweeper.pendingIds

/-- Honest callers: every call names a reservation already made and pays with exactly its
coins. -/
def honest (s : State) : Action → Bool
  | .executeTransaction _ r txData =>
    decide (r < s.store.nextId) && decide (txData.paymentIds.Perm (ids (s.store.coinsOf r)))
  | _ => true

/-! ## Lists of ids -/

theorem nodup_of_subperm {l₁ l₂ : List ObjectID} (h : l₁.Subperm l₂) (h₂ : l₂.Nodup) :
    l₁.Nodup := by
  obtain ⟨l, hp, hs⟩ := h
  exact hp.nodup_iff.1 (hs.nodup h₂)

theorem flatMap_perm_append {l : List ℕ} {f g h : ℕ → List ObjectID}
    (hf : ∀ r ∈ l, (f r).Perm (g r ++ h r)) :
    (l.flatMap f).Perm (l.flatMap g ++ l.flatMap h) := by
  induction l with
  | nil => simp
  | cons a l ih =>
    simp only [List.flatMap_cons]
    refine ((hf a (List.mem_cons_self _ _)).append
      (ih fun r hr => hf r (List.mem_cons_of_mem _ hr))).trans ?_
    rw [List.perm_iff_count]
    intro x
    simp only [List.count_append]
    omega

theorem flatMap_filter_eq (l : List ℕ) (p : ℕ → Bool) (f : ℕ → List ObjectID) :
    (l.filter p).flatMap f = l.flatMap fun r => if p r then f r else [] := by
  induction l with
  | nil => rfl
  | cons a l ih => by_cases h : p a <;> simp [List.filter_cons, h, ih]

/-! ## How the store's operations move coins -/

namespace Store

theorem heldBy_congr {st st' : Store} {r : ReservationID} (hs : st'.statusOf r = st.statusOf r)
    (hc : st'.coinsOf r = st.coinsOf r) : st'.heldBy r = st.heldBy r := by
  unfold heldBy; rw [hs, hc]

/-- Reservations leaving the held states, and nothing else changing: their coins leave the
reserved ids. -/
theorem reservedIds_perm_of_leave {st st' : Store} (hn : st'.nextId = st.nextId)
    (leaves : ℕ → Bool) (h : ∀ r, st'.heldBy r = if leaves r then [] else st.heldBy r) :
    st.reservedIds.Perm
      (st'.reservedIds ++ ((List.range st.nextId).filter leaves).flatMap st.heldBy) := by
  rw [reservedIds, reservedIds, hn, flatMap_filter_eq]
  refine flatMap_perm_append fun r _ => ?_
  rw [h r]
  split <;> simp

/-- `expire_coins` moves the coins of the due reservations out of the reserved ids, and returns
their ids. -/
theorem reservedIds_expireCoins (st : Store) (now : ℕ) :
    st.reservedIds.Perm ((st.expireCoins now).1.reservedIds ++ (st.expireCoins now).2) := by
  have hdue : ∀ r, (st.reservations r).any (Reservation.isDue now) →
      st.statusOf r = some .active := fun _ => statusOf_of_isDue
  have h : st.reservedIds.Perm ((st.expireCoins now).1.reservedIds ++ _) :=
    reservedIds_perm_of_leave (expireCoins_nextId st now)
      (fun r => (st.reservations r).any (Reservation.isDue now))
      fun r => by
      rw [heldBy, statusOf_expireCoins, coinsOf_expireCoins]
      split_ifs <;> rfl
  refine h.trans (List.Perm.append_left _ (List.Perm.of_eq ?_))
  rw [expireCoins, dueIds]
  refine List.flatMap_congr fun r hr => ?_
  simp only [heldBy, hdue r (List.mem_filter.1 hr).2, Function.comp_apply]


/-- The TERMINAL transition of an IN_FLIGHT reservation moves its coins out of the reserved
ids. -/
theorem reservedIds_markTerminal {st : Store} {r : ReservationID}
    (hr : st.statusOf r = some .inFlight) (hlt : r < st.nextId) :
    st.reservedIds.Perm ((st.markTerminal r).reservedIds ++ ids (st.coinsOf r)) := by
  have h : st.reservedIds.Perm ((st.markTerminal r).reservedIds ++ _) :=
    reservedIds_perm_of_leave (markTerminal_nextId st r) (· == r) fun r' => by
      rw [heldBy, statusOf_markTerminal, coinsOf_markTerminal, hr]
      by_cases h : r' = r <;> simp [h, heldBy]
  rwa [List.filter_beq, List.count_eq_one_of_mem (List.nodup_range _) (List.mem_range.2 hlt),
    List.replicate_one, List.flatMap_singleton, heldBy, hr] at h

/-- `ready_for_execution` keeps the reserved ids: ACTIVE and IN_FLIGHT are both held. -/
theorem reservedIds_readyForExecution {st st' : Store} {sponsor : SuiAddress} {r : ReservationID}
    (h : st.readyForExecution sponsor r = some st') : st'.reservedIds = st.reservedIds := by
  obtain ⟨hact, hnext, hst⟩ := statusOf_readyForExecution h
  rw [reservedIds, reservedIds, hnext]
  refine List.flatMap_congr fun r' _ => ?_
  rw [heldBy, hst, coinsOf_readyForExecution h, heldBy]
  by_cases h' : r' = r
  · subst h'; simp [hact]
  · simp [h']

theorem heldIds_readyForExecution {st st' : Store} {sponsor : SuiAddress} {r : ReservationID}
    (h : st.readyForExecution sponsor r = some st') : st'.heldIds = st.heldIds := by
  rw [heldIds, heldIds, reservedIds_readyForExecution h]
  obtain ⟨_, -, -, -, rfl⟩ := readyForExecution_eq_some h
  rfl

/-- `reserve_gas_coins` moves the chosen coins from the available ones to the new
reservation. -/
theorem heldIds_reserveGasCoins {st st' : Store} {now : ℕ} {sponsor : SuiAddress}
    {gasBudget : U64} {durationMs : ℕ} {coins : List GasCoin} {r : ReservationID}
    (h : st.reserveGasCoins now sponsor gasBudget durationMs coins = some (st', r)) :
    st'.heldIds.Perm st.heldIds := by
  obtain ⟨hsub, -, hst'⟩ := reserveGasCoins_eq_some h
  obtain ⟨hnext, hstat⟩ := statusOf_reserveGasCoins h
  have hres : st'.reservedIds = st.reservedIds ++ ids coins := by
    rw [reservedIds, reservedIds, hnext, List.range_succ, List.flatMap_append,
      List.flatMap_singleton]
    congr 1
    · refine List.flatMap_congr fun r' hr' => ?_
      have hne : r' ≠ st.nextId := Nat.ne_of_lt (List.mem_range.1 hr')
      exact heldBy_congr (by rw [hstat, if_neg hne]) (by rw [coinsOf_reserveGasCoins h, if_neg hne])
    · rw [heldBy, hstat, coinsOf_reserveGasCoins h, if_pos rfl, if_pos rfl]
  have havail : (coins ++ st.available.diff coins).Perm st.available :=
    List.subperm_append_diff_self_of_count_le
      (List.subperm_ext_iff.1 (hsub.trans (List.filter_sublist _).subperm))
  rw [heldIds, heldIds, hres, hst']
  refine List.perm_iff_count.2 fun x => ?_
  have := List.perm_iff_count.1 (havail.map GasCoin.id) x
  simp only [ids, List.map_append, List.count_append] at this ⊢
  omega

end Store

/-- `add_new_coins` of coins whose ids the store does not hold appends them. -/
theorem foldl_addCoin {available coins : List GasCoin} (h : (ids (available ++ coins)).Nodup) :
    coins.foldl Store.addCoin available = available ++ coins := by
  induction coins generalizing available with
  | nil => simp
  | cons c coins ih =>
    have hc : c.id ∉ ids available := fun hc => by
      rw [ids_append, ids_cons] at h
      exact (List.nodup_append.1 h).2.2 hc (List.mem_cons_self _ _)
    have hadd : Store.addCoin available c = available ++ [c] := by
      rw [Store.addCoin, if_neg]
      simp only [List.any_eq_true, Bool.and_eq_true, beq_iff_eq, not_exists, not_and]
      exact fun a ha hid _ => hc (hid ▸ List.mem_map_of_mem _ ha)
    rw [List.foldl_cons, hadd, ih (by simpa using h)]
    simp

@[simp] theorem pendingIds_enterSelect (s : State) : s.enterSelect.sweeper.pendingIds = [] := by
  simp only [State.enterSelect_sweeper]
  split <;> rfl

/-! ## The custody invariant -/

/-- What custody needs of a call: it names a reservation already made, pays with exactly that
reservation's coins, and is to release only coins of its payment, of distinct ids. -/
structure Call.Pays (st : Store) (c : Call) : Prop where
  reserved : c.reservationId < st.nextId
  perm : c.txData.paymentIds.Perm (ids (st.coinsOf c.reservationId))
  usage : ∀ total effects, c.phase = .usage total effects →
    effects.gasObject.1 ∈ c.txData.paymentIds
  release : ∀ coins response, c.phase = .release coins response →
    (ids coins).Nodup ∧ ids coins ⊆ c.txData.paymentIds

theorem Call.Pays.of_store {st st' : Store} {c : Call} (h : c.Pays st)
    (hn : st.nextId ≤ st'.nextId)
    (hcoins : st'.coinsOf c.reservationId = st.coinsOf c.reservationId) :
    c.Pays st' :=
  ⟨Nat.lt_of_lt_of_le h.reserved hn, hcoins ▸ h.perm, h.usage, h.release⟩

/-- A call keeps paying honestly in a new phase that releases only coins of its payment. -/
theorem Call.Pays.withPhase {st : Store} {c : Call} (h : c.Pays st) (p : Phase)
    (hu : ∀ total effects, p = .usage total effects → effects.gasObject.1 ∈ c.txData.paymentIds)
    (hr : ∀ coins response, p = .release coins response →
      (ids coins).Nodup ∧ ids coins ⊆ c.txData.paymentIds) :
    { c with phase := p }.Pays st :=
  ⟨h.reserved, h.perm, hu, hr⟩

/-- The custody invariant of runs with honest callers: the pool holds each coin id at most once;
every call pays honestly; and the chain and the fullnode keep each object under its id. -/
structure CustodyInv (s : State) : Prop where
  nodup : (custody s).Nodup
  calls : ∀ t c, s.calls t = some c → c.Pays s.store
  ledger_id : ∀ x c, s.ledger x = some c → c.id = x
  fullnode_id : ∀ x c, s.fullnode x = some c → c.id = x

theorem find?_id {pool : List GasCoin} {x : ObjectID} {c : GasCoin}
    (h : pool.find? (·.id == x) = some c) : c.id = x := by
  simpa using List.find?_some h

theorem custodyInv_init {pool : List GasCoin} (hpool : (ids pool).Nodup) :
    CustodyInv (init pool) where
  nodup := by
    simpa [custody, Store.heldIds, Store.reservedIds, init, Sweeper.pendingIds] using hpool
  calls _ _ h := nomatch h
  ledger_id _ _ := find?_id
  fullnode_id _ _ := find?_id

namespace CustodyInv

variable {s s' : State}

/-- A lookup returns coins of distinct ids among those asked for, whichever way the fullnode
answers. -/
theorem ids_latest (hi : CustodyInv s) (cfg : Config) (order : List ℕ) (xs : List ObjectID) :
    (ids (latestGasCoins (s.view cfg) order xs)).Nodup ∧
      ids (latestGasCoins (s.view cfg) order xs) ⊆ xs := by
  unfold State.view
  split
  · exact ids_latestGasCoins hi.ledger_id order xs
  · exact ids_latestGasCoins hi.fullnode_id order xs

theorem calls_of_store (hi : CustodyInv s) {st : Store} (hn : s.store.nextId ≤ st.nextId)
    (hcoins : ∀ r, r < s.store.nextId → st.coinsOf r = s.store.coinsOf r) :
    ∀ t c, s.calls t = some c → c.Pays st := fun t c hc =>
  let hp := hi.calls t c hc
  hp.of_store hn (hcoins _ hp.reserved)

theorem calls_update {st : Store} {calls : ℕ → Option Call}
    (h : ∀ t c, calls t = some c → c.Pays st)
    {t : ℕ} {c' : Call} (hc' : c'.Pays st) :
    ∀ t' c'', Function.update calls t (some c') t' = some c'' → c''.Pays st := fun t' c'' h' => by
  rcases CommitInv.update_eq_some h' with ⟨-, rfl⟩ | ⟨-, h'⟩
  · exact hc'
  · exact h t' c'' h'

/-- Returning, in place of the ids `freed`, coins of distinct ids among them: custody stays
exclusive, and the returned ids are not among the available ones. -/
theorem nodup_release {avail freed rest added : List ObjectID}
    (h : (avail ++ freed ++ rest).Nodup) (hadded : added.Nodup) (hsub : added ⊆ freed) :
    (avail ++ added ++ rest).Nodup ∧ (avail ++ added).Nodup := by
  have hs : (avail ++ added ++ rest).Subperm (avail ++ freed ++ rest) :=
    (List.subperm_append_right rest).2 ((List.subperm_append_left avail).2 (hadded.subperm hsub))
  have hn := nodup_of_subperm hs h
  exact ⟨hn, (List.nodup_append.1 hn).1⟩

theorem ledger_id_execute (hi : CustodyInv s) {sponsor : SuiAddress} {payment : List ObjectRef}
    {n : I64} {digest : ObjectDigest} {ledger : Ledger} {effects : Effects}
    (hex : s.ledger.execute sponsor payment n digest = some (ledger, effects)) :
    ∀ x c, ledger x = some c → c.id = x := by
  obtain ⟨gas, rest, rfl, -, rfl, hgas, hrest, hkeep⟩ := Ledger.execute_eq_some hex
  intro x c hx
  by_cases hxg : x = gas.1
  · subst hxg
    rw [hgas] at hx
    cases hx
    rfl
  · by_cases hxp : x ∈ (gas :: rest).map (·.1)
    · have hxr : x ∈ rest.map (·.1) := (List.mem_cons.1 hxp).resolve_left hxg
      rw [hrest x hxr hxg] at hx
      cases hx
    · exact hi.ledger_id x c (hkeep x hxp ▸ hx)

/-- A committed call's successful `add_new_coins` keeps custody exclusive: its reservation's
coins leave the reserved ids, and the coins it returns, of distinct ids among them, join the
available ones. -/
theorem releaseOk (hi : CustodyInv s) (hcom : CommitInv s) {t : ℕ} {c : Call}
    {coins : List GasCoin} {response : Except ExecuteError Effects} (hc : s.calls t = some c)
    (hphase : c.phase = .release coins response) :
    CustodyInv (({ s with store := (s.store.addNewCoins coins).markTerminal c.reservationId
      }.setPhase t c (.done response)).emit (.addNewCoins (.call t) coins true)) := by
  have hp := hi.calls t c hc
  obtain ⟨hnd, hsub⟩ := hp.release coins response hphase
  have hsub' : ids coins ⊆ ids (s.store.coinsOf c.reservationId) :=
    fun x hx => hp.perm.subset (hsub hx)
  have hflight : (s.store.addNewCoins coins).statusOf c.reservationId = some .inFlight := by
    simpa [hphase, Phase.isDone] using hcom.committed_status t c hc (by rw [hphase]; rfl)
  have hperm := Store.reservedIds_markTerminal hflight hp.reserved
  have hold : (ids s.store.available ++ ids (s.store.coinsOf c.reservationId) ++
      ((s.store.addNewCoins coins).markTerminal c.reservationId).reservedIds ++
        s.sweeper.pendingIds).Nodup := by
    refine (List.perm_iff_count.2 fun x => ?_).nodup_iff.1 hi.nodup
    have := List.perm_iff_count.1 hperm x
    simp only [custody, Store.heldIds, List.count_append, Store.coinsOf_addNewCoins] at this ⊢
    rw [show (s.store.addNewCoins coins).reservedIds = s.store.reservedIds from rfl] at this
    omega
  have hrel := nodup_release (List.append_assoc _ _ _ ▸ hold) hnd hsub'
  have hcalls : ∀ t' c', s.calls t' = some c' →
      c'.Pays ((s.store.addNewCoins coins).markTerminal c.reservationId) :=
    hi.calls_of_store le_rfl fun r _ => by simp
  refine ⟨?_, calls_update hcalls ?_, hi.ledger_id, hi.fullnode_id⟩
  · show (((s.store.addNewCoins coins).markTerminal c.reservationId).heldIds ++
      s.sweeper.pendingIds).Nodup
    rw [Store.heldIds, Store.markTerminal_available, Store.addNewCoins,
      foldl_addCoin (by simpa using hrel.2)]
    simpa [List.append_assoc] using hrel.1
  · exact (hp.withPhase (.done response) (fun _ _ h => nomatch h)
      (fun _ _ h => nomatch h)).of_store le_rfl (by simp)

/-- Every step of a call keeps custody exclusive. -/
theorem callStep (hi : CustodyInv s) (hcom : CommitInv s) {cfg : Config} {t : ℕ} {c : Call}
    (hc : s.calls t = some c) (h : CallStep cfg s t c s') : CustodyInv s' := by
  have hp := hi.calls t c hc
  have hset : ∀ p, (∀ total effects, p = .usage total effects →
      effects.gasObject.1 ∈ c.txData.paymentIds) → (∀ coins response, p = .release coins response →
      (ids coins).Nodup ∧ ids coins ⊆ c.txData.paymentIds) →
      ∀ t' c'', Function.update s.calls t (some { c with phase := p }) t' = some c'' →
        c''.Pays s.store := fun p hu hr => calls_update hi.calls (hp.withPhase p hu hr)
  cases h with
  | reject e _ | readyFail _ | balance _ _ _ | signOk _ _ _ | unexecuted _ _ =>
    exact ⟨hi.nodup, hset _ (fun _ _ h => nomatch h) (fun _ _ h => nomatch h), hi.ledger_id,
      hi.fullnode_id⟩
  | readyOk store _ hready =>
    obtain ⟨-, hn, -⟩ := Store.statusOf_readyForExecution hready
    have hco := Store.coinsOf_readyForExecution hready
    refine ⟨?_, calls_update (hi.calls_of_store hn.ge fun r _ => hco r)
      ((hp.withPhase .balance (fun _ _ h => nomatch h) (fun _ _ h => nomatch h)).of_store hn.ge
        (hco _)), hi.ledger_id, hi.fullnode_id⟩
    show (store.heldIds ++ s.sweeper.pendingIds).Nodup
    rw [Store.heldIds_readyForExecution hready]
    exact hi.nodup
  | latest _ _ _ _ =>
    refine ⟨hi.nodup, hset _ (fun _ _ h => nomatch h) ?_, hi.ledger_id, hi.fullnode_id⟩
    rintro coins response ⟨⟩
    exact hi.ids_latest cfg _ _
  | signFail total k _ =>
    refine ⟨hi.nodup, hset _ (fun _ _ h => ?_) (fun _ _ h => ?_), hi.ledger_id, hi.fullnode_id⟩ <;>
      split at h <;> cases h
  | executed total n digest ledger effects _ hex =>
    obtain ⟨gas, rest, hpay, -, rfl, -⟩ := Ledger.execute_eq_some hex
    refine ⟨hi.nodup, hset _ (fun _ _ h => ?_) (fun _ _ h => nomatch h),
      hi.ledger_id_execute hex, hi.fullnode_id⟩
    cases h
    simp [TransactionData.paymentIds, hpay]
  | lost total n digest ledger effects _ hex =>
    exact ⟨hi.nodup, hset _ (fun _ _ h => nomatch h) (fun _ _ h => nomatch h),
      hi.ledger_id_execute hex, hi.fullnode_id⟩
  | usage total effects hphase =>
    refine ⟨hi.nodup, hset _ (fun _ _ h => nomatch h) ?_, hi.ledger_id, hi.fullnode_id⟩
    rintro coins response ⟨⟩
    refine ⟨List.nodup_singleton _, fun x hx => ?_⟩
    rw [List.mem_singleton.1 hx]
    exact hp.usage total effects hphase
  | lookupFail _ | releaseFail _ _ _ => exact ⟨hi.nodup, hi.calls, hi.ledger_id, hi.fullnode_id⟩
  | releaseOk coins response hphase => exact hi.releaseOk hcom hc hphase

/-- Every step of the coin unlocker keeps custody exclusive. -/
theorem sweep (hi : CustodyInv s) {cfg : Config} (h : SweepStep cfg s s') : CustodyInv s' := by
  have hexp : s.sweeper = .top → (ids s.store.available ++
      (s.store.expireCoins s.now).1.reservedIds ++ (s.store.expireCoins s.now).2).Nodup :=
    fun hsw => by
    refine (List.perm_iff_count.2 fun x => ?_).nodup_iff.1 hi.nodup
    have := List.perm_iff_count.1 (Store.reservedIds_expireCoins s.store s.now) x
    simp only [custody, Store.heldIds, hsw, Sweeper.pendingIds, List.count_append,
      List.count_nil] at this ⊢
    omega
  have hcalls := hi.calls_of_store (Store.expireCoins_nextId s.store s.now).ge
    fun r _ => Store.coinsOf_expireCoins _ _ _
  cases h with
  | expireNone hsw hnil =>
    refine ⟨?_, hcalls, hi.ledger_id, hi.fullnode_id⟩
    have h := hexp hsw
    rw [hnil, List.append_nil] at h
    simpa only [custody, pendingIds_enterSelect, List.append_nil, State.enterSelect_store,
      State.emit_store, Store.heldIds] using h
  | expireSome hsw _ =>
    exact ⟨by simpa [custody, Store.heldIds] using hexp hsw, hcalls, hi.ledger_id,
      hi.fullnode_id⟩
  | expireFail hsw =>
    refine ⟨?_, hi.calls, hi.ledger_id, hi.fullnode_id⟩
    simp only [custody, pendingIds_enterSelect, List.append_nil, State.enterSelect_store,
      State.emit_store]
    simpa [custody, hsw] using hi.nodup
  | lookup xs order hsw _ =>
    refine ⟨?_, hi.calls, hi.ledger_id, hi.fullnode_id⟩
    have hlatest := hi.ids_latest cfg order xs
    refine nodup_of_subperm ((List.subperm_append_left _).2 (hlatest.1.subperm hlatest.2)) ?_
    simpa [custody, hsw, Sweeper.pendingIds] using hi.nodup
  | releaseOk coins hsw =>
    have hold : (ids s.store.available ++ ids coins ++ s.store.reservedIds).Nodup := by
      refine (List.perm_iff_count.2 fun x => ?_).nodup_iff.1 hi.nodup
      simp only [custody, Store.heldIds, hsw, Sweeper.pendingIds, List.count_append]
      omega
    obtain ⟨-, hnew⟩ := nodup_release hold (List.nodup_append.1 (List.nodup_append.1 hold).1).2.1
      (List.Subset.refl _)
    refine ⟨?_, hi.calls_of_store le_rfl fun r _ => rfl, hi.ledger_id, hi.fullnode_id⟩
    simp only [custody, State.enterSelect_store, State.emit_store, pendingIds_enterSelect,
      List.append_nil, Store.heldIds, Store.addNewCoins]
    rw [foldl_addCoin (by simpa using hnew)]
    simpa using hold
  | lookupFail _ _ | releaseFail _ _ | wake _ =>
    exact ⟨by simpa [custody, *, Sweeper.pendingIds] using hi.nodup, hi.calls, hi.ledger_id,
      hi.fullnode_id⟩
  | cancel hsw _ =>
    exact ⟨by simpa [custody, hsw, Sweeper.pendingIds] using hi.nodup, hi.calls, hi.ledger_id,
      hi.fullnode_id⟩

/-- Every step an honest environment allows keeps custody exclusive. -/
theorem step (hi : CustodyInv s) (hcom : CommitInv s) {cfg : Config} {a : Action}
    (henv : honest s a = true) (h : Step cfg s a s') : CustodyInv s' := by
  cases h with
  | reserveGas sponsor gasBudget durationMs coins store r hres =>
    obtain ⟨hn, -⟩ := Store.statusOf_reserveGasCoins hres
    refine ⟨?_, hi.calls_of_store (hn ▸ Nat.le_succ _) fun r' hr' => ?_, hi.ledger_id,
      hi.fullnode_id⟩
    · exact ((Store.heldIds_reserveGasCoins hres).append_right _).nodup_iff.2 hi.nodup
    · rw [Store.coinsOf_reserveGasCoins hres, if_neg (Nat.ne_of_lt hr')]
  | executeTransaction t r txData _ =>
    simp only [honest, Bool.and_eq_true, decide_eq_true_eq] at henv
    exact ⟨hi.nodup, calls_update hi.calls ⟨henv.1, henv.2, (fun _ _ h => nomatch h),
      (fun _ _ h => nomatch h)⟩, hi.ledger_id, hi.fullnode_id⟩
  | call t o c s' hc _ hcall => exact hi.callStep hcom hc hcall
  | drop t c hc _ =>
    have hp := hi.calls t c hc
    exact ⟨hi.nodup, calls_update hi.calls ⟨hp.1, hp.2, hp.3, hp.4⟩, hi.ledger_id, hi.fullnode_id⟩
  | sweep o s' hsweep => exact hi.sweep hsweep
  | containerDrop _ | tick _ => exact ⟨hi.nodup, hi.calls, hi.ledger_id, hi.fullnode_id⟩
  | settle _ _ _ _ _ _ _ _ hex =>
    exact ⟨hi.nodup, hi.calls, hi.ledger_id_execute hex, hi.fullnode_id⟩
  | sync x =>
    refine ⟨hi.nodup, hi.calls, hi.ledger_id, fun y c hy => ?_⟩
    simp only [Function.update_apply] at hy
    split_ifs at hy with hxy
    · exact hxy ▸ hi.ledger_id _ _ hy
    · exact hi.fullnode_id _ _ hy

end CustodyInv

/-- In every run with honest callers from a pool of distinct coins, custody is exclusive. -/
theorem custodyInv_of_honest {cfg : Config} {pool : List GasCoin} {s : State}
    (hpool : (ids pool).Nodup) (hs : Reaches cfg honest (init pool) s) : CustodyInv s :=
  hs.rec_reach (custodyInv_init hpool) fun _ _ _ hr hi he h =>
    hi.step (commitInv_of_reaches hr) he h

/-- With honest callers, in every run from a pool of distinct coins and whatever the fullnode
returns, the store holds each coin id at most once: among its available coins and the coins of
its ACTIVE and IN_FLIGHT reservations. -/
theorem heldIds_nodup_of_honest {cfg : Config} {pool : List GasCoin} {s : State}
    (hpool : (ids pool).Nodup) (hs : Reaches cfg honest (init pool) s) : s.store.heldIds.Nodup :=
  (List.nodup_append.1 (custodyInv_of_honest hpool hs).nodup).1

/-- An honest run of the one-coin pool under a lagging fullnode: the coin is reserved, a call pays
with it, the chain executes the transaction and the call returns the new gas coin. -/
def honestState : State :=
  runState (cfgOne .lagging) honest (init onePool)
    [.reserveGas none 5 1000 onePool,
      .executeTransaction 0 0 ⟨.programmableTransaction [], ⟨[(1, 1, 0)], 0⟩⟩,
      .run 0 .ok, .run 0 (.read [0]), .run 0 .ok, .run 0 (.submit (.executed 3 7)), .run 0 .ok,
      .run 0 .ok]

theorem heldIds_nodup_of_honest_honestState :
    (ids onePool).Nodup ∧ Reaches (cfgOne .lagging) honest (init onePool) honestState ∧
      honestState.store.heldIds.Nodup :=
  ⟨by decide, reaches_runState _ (by decide),
    heldIds_nodup_of_honest (by decide) (reaches_runState _ (by decide))⟩

/-! ## A caller paying with another coin -/

/-- Two coins of sponsor `0`, objects `1` and `2`, of balance `10`. -/
def twoPool : List GasCoin := [⟨0, (1, 1, 0), 10⟩, ⟨0, (2, 1, 0), 10⟩]

/-- A store call `add_new_coins` passing a coin of id `x`, whether or not it succeeds. -/
def Event.adds (x : ObjectID) : Event → Bool
  | .addNewCoins _ coins _ => decide (x ∈ ids coins)
  | _ => false

/-- Coin `2` is reserved; a call on that reservation pays with coin `1`, which is available; the
chain executes the transaction, charging `3`, and the call releases the new gas coin. -/
def foreignPaymentRun : List Action :=
  [.reserveGas none 5 1000 [⟨0, (2, 1, 0), 10⟩],
    .executeTransaction 0 0 ⟨.programmableTransaction [], ⟨[(1, 1, 0)], 0⟩⟩,
    .run 0 .ok, .run 0 (.read [0]), .run 0 .ok, .run 0 (.submit (.executed 3 7)), .run 0 .ok,
    .run 0 .ok]

/-- The state after `foreignPaymentRun`. -/
def foreignPaymentState : State :=
  runState (cfgOne .upToDate) anyAction (init twoPool) foreignPaymentRun

/-- After the run, object `1` is available twice, at its old and its new version. -/
theorem foreign_payment_double_custody :
    Reaches (cfgOne .upToDate) anyAction (init twoPool) foreignPaymentState ∧
      ids foreignPaymentState.store.available = [1, 1] ∧
      ¬ foreignPaymentState.store.heldIds.Nodup :=
  ⟨reaches_runState _ (by decide), by decide, by decide⟩

/-- After the run, no call is in progress, no reservation is left to expire, and the unlocker
returns nothing; coin `2` still exists on chain, and the pool holds it nowhere. -/
theorem foreign_payment_loses_reserved_coin :
    Reaches (cfgOne .upToDate) anyAction (init twoPool) foreignPaymentState ∧
      (∀ t c, foreignPaymentState.calls t = some c → c.phase.isDone = true) ∧
      foreignPaymentState.store.dueIds foreignPaymentState.now = [] ∧
      foreignPaymentState.sweeper.pendingIds = [] ∧
      (foreignPaymentState.ledger 2).isSome ∧ 2 ∉ foreignPaymentState.store.heldIds := by
  refine ⟨reaches_runState _ (by decide), fun t c hc => ?_, by decide, by decide, by decide,
    by decide⟩
  obtain ⟨r, txData, hmem⟩ := calls_runState (by decide) (fun _ => rfl) hc
  simp only [foreignPaymentRun, List.mem_cons, reduceCtorEq, Action.executeTransaction.injEq,
    false_or, List.mem_nil_iff, or_false] at hmem
  obtain ⟨rfl, -⟩ := hmem
  have hdone : (foreignPaymentState.calls 0).any (·.phase.isDone) := by decide
  rw [hc] at hdone
  exact hdone

/-- Call `t` was dropped past its commit point and before returning, `x` is a coin of its
reservation, and no other call that has returned paid with `x`: no transaction of another call
that the chain may still execute touches it. -/
structure Stranded (s : State) (t : ℕ) (c : Call) (x : ObjectID) : Prop where
  call : s.calls t = some c
  dropped : c.dropped = true
  committed : c.phase.committed
  pending : c.phase.isDone = false
  mem : x ∈ ids (s.store.coinsOf c.reservationId)
  returned : ∀ t' c', s.calls t' = some c' → t' ≠ t → c'.phase.isDone → x ∉ c'.txData.paymentIds

namespace CustodyInv

variable {s s' : State}

/-- A coin held for a reservation is held nowhere else. -/
theorem exclusive (hi : CustodyInv s) (hcom : CommitInv s) {r : ReservationID} {x : ObjectID}
    (hx : x ∈ s.store.heldBy r) :
    x ∉ ids s.store.available ∧ (∀ r', r' ≠ r → x ∉ s.store.heldBy r') ∧
      x ∉ s.sweeper.pendingIds := by
  have hlt : ∀ r', x ∈ s.store.heldBy r' → r' < s.store.nextId := fun r' h => by
    by_contra hr
    simp [Store.heldBy, hcom.fresh r' (Nat.le_of_not_lt hr)] at h
  have hnd := hi.nodup
  rw [custody, Store.heldIds, List.append_assoc] at hnd
  obtain ⟨-, hnd₂, hdis⟩ := List.nodup_append.1 hnd
  obtain ⟨hres, -, hdis₂⟩ := List.nodup_append.1 hnd₂
  have hxres : x ∈ s.store.reservedIds := List.mem_flatMap.2 ⟨r, List.mem_range.2 (hlt r hx), hx⟩
  refine ⟨fun h => hdis h (List.mem_append_left _ hxres), fun r' hne hx' => ?_,
    fun h => hdis₂ hxres h⟩
  rw [Store.reservedIds, List.nodup_flatMap] at hres
  exact hres.2.forall (fun _ _ h => h.symm) (List.mem_range.2 (hlt r' hx'))
    (List.mem_range.2 (hlt r hx)) hne hx' hx

/-- A call in progress past its commit point pays with the coins held for its reservation. -/
theorem payment_subset_heldBy (hi : CustodyInv s) (hcom : CommitInv s) {t : ℕ} {c : Call}
    (hc : s.calls t = some c) (hcom' : c.phase.committed) (hd : c.phase.isDone = false) :
    c.txData.paymentIds ⊆ s.store.heldBy c.reservationId := by
  have hflight : s.store.statusOf c.reservationId = some .inFlight := by
    simpa [hd] using hcom.committed_status t c hc hcom'
  simpa [Store.heldBy, hflight] using (hi.calls t c hc).perm.subset

/-- The coins held for one reservation have distinct ids. -/
theorem heldBy_nodup (hi : CustodyInv s) (hcom : CommitInv s) (r : ReservationID) :
    (s.store.heldBy r).Nodup := by
  by_cases hr : r < s.store.nextId
  · have hnd := hi.nodup
    rw [custody, Store.heldIds, List.nodup_append, List.nodup_append, Store.reservedIds,
      List.nodup_flatMap] at hnd
    exact hnd.1.2.1.1 r (List.mem_range.2 hr)
  · simp [Store.heldBy, hcom.fresh r (Nat.le_of_not_lt hr)]

/-- A call in progress past its commit point pays with distinct coins. -/
theorem payment_nodup (hi : CustodyInv s) (hcom : CommitInv s) {t : ℕ} {c : Call}
    (hc : s.calls t = some c) (hcom' : c.phase.committed) (hd : c.phase.isDone = false) :
    c.txData.paymentIds.Nodup := by
  have hflight : s.store.statusOf c.reservationId = some .inFlight := by
    simpa [hd] using hcom.committed_status t c hc hcom'
  have hlt : c.reservationId < s.store.nextId := (hi.calls t c hc).reserved
  have hnd := hi.nodup
  rw [custody, Store.heldIds, List.nodup_append, List.nodup_append, Store.reservedIds,
    List.nodup_flatMap] at hnd
  have := hnd.1.2.1.1 c.reservationId (List.mem_range.2 hlt)
  rw [Store.heldBy, hflight] at this
  exact (hi.calls t c hc).perm.nodup_iff.2 this

/-- Two calls in progress past their commit points pay with distinct coins, and the unlocker
holds none of them. -/
theorem payment_disjoint (hi : CustodyInv s) (hcom : CommitInv s) {t : ℕ} {c : Call}
    (hc : s.calls t = some c) (hcom₁ : c.phase.committed) (hd₁ : c.phase.isDone = false)
    {x : ObjectID} (hx : x ∈ c.txData.paymentIds) :
    x ∉ s.sweeper.pendingIds ∧ ∀ t' c', s.calls t' = some c' → t' ≠ t →
      c'.phase.committed → c'.phase.isDone = false → x ∉ c'.txData.paymentIds := by
  have hex := hi.exclusive hcom (hi.payment_subset_heldBy hcom hc hcom₁ hd₁ hx)
  refine ⟨hex.2.2, fun t' c' hc' hne hcom' hd' hx' => ?_⟩
  have hrid : c'.reservationId ≠ c.reservationId := fun hr =>
    hne (hcom.ready_unique _ _ _ (hr ▸ hcom.committed_ready t' c' hc' hcom')
      (hcom.committed_ready t c hc hcom₁))
  exact hex.2.1 _ hrid (hi.payment_subset_heldBy hcom hc' hcom' hd' hx')

end CustodyInv

/-- A call returns only from a phase past its commit point, and keeps its transaction. -/
theorem CallStep.of_isDone {cfg : Config} {s s' : State} {t : ℕ} {c c' : Call}
    (hc : s.calls t = some c) (h : CallStep cfg s t c s') (hc' : s'.calls t = some c')
    (hd : c'.phase.isDone) : c'.txData = c.txData ∧ c.phase.committed ∧ c.phase.isDone = false := by
  cases h <;> simp only [State.emit_calls, State.setPhase_calls, Function.update_same,
    Option.some.injEq, hc] at hc' <;> subst hc'
  case releaseOk hp => exact ⟨rfl, by rw [hp]; rfl, by rw [hp]; rfl⟩
  case signFail => split at hd <;> cases hd
  case lookupFail hp => cases (Phase.committed_of_awaitsLookup hp).2.symm.trans hd
  case releaseFail hp => rw [hp] at hd; cases hd
  all_goals cases hd

namespace Stranded

variable {s s' : State} {t : ℕ} {c : Call} {x : ObjectID}

/-- A step that changes no call and no reservation's coins keeps a call stranded. -/
theorem of_calls (hst : Stranded s t c x) (hcalls : s'.calls = s.calls)
    (hco : s'.store.coinsOf c.reservationId = s.store.coinsOf c.reservationId) :
    Stranded s' t c x :=
  ⟨hcalls ▸ hst.call, hst.dropped, hst.committed, hst.pending, hco ▸ hst.mem,
    hcalls ▸ hst.returned⟩

/-- A step that changes one other call, to one that has not returned or did not pay with `x`,
keeps a call stranded. -/
theorem of_update (hst : Stranded s t c x) {t' : ℕ} {c' : Call} (ht : t' ≠ t)
    (hcalls : s'.calls = Function.update s.calls t' (some c'))
    (hco : s'.store.coinsOf c.reservationId = s.store.coinsOf c.reservationId)
    (hret : c'.phase.isDone → x ∉ c'.txData.paymentIds) : Stranded s' t c x := by
  refine ⟨?_, hst.dropped, hst.committed, hst.pending, hco ▸ hst.mem, fun t'' c'' hc'' ht'' => ?_⟩
  · rw [hcalls, Function.update_noteq (Ne.symm ht), hst.call]
  · rw [hcalls] at hc''
    rcases CommitInv.update_eq_some hc'' with ⟨rfl, rfl⟩ | ⟨-, hc''⟩
    exacts [hret, hst.returned t'' c'' hc'' ht'']

/-- No other call past its commit point, returned or not, pays with `x`, and the unlocker does
not hold it. -/
theorem not_mem_payment (hst : Stranded s t c x) (hi : CustodyInv s) (hcom : CommitInv s) :
    x ∉ s.sweeper.pendingIds ∧ ∀ t' c', s.calls t' = some c' → t' ≠ t → c'.phase.committed →
      x ∉ c'.txData.paymentIds := by
  have hdis := hi.payment_disjoint hcom hst.call hst.committed hst.pending
    ((hi.calls t c hst.call).perm.symm.subset hst.mem)
  refine ⟨hdis.1, fun t' c' hc' ht hcom' => ?_⟩
  cases hd : c'.phase.isDone
  exacts [hdis.2 _ _ hc' ht hcom' hd, hst.returned _ _ hc' ht hd]

/-- A step of another call keeps a call stranded: if that call returns, it paid with no coin
of the stranded reservation. -/
theorem of_callStep (hst : Stranded s t c x) (hi : CustodyInv s) (hcom : CommitInv s)
    {cfg : Config} {t' : ℕ} {c' : Call} (hc' : s.calls t' = some c') (ht : t' ≠ t)
    (hcall : CallStep cfg s t' c' s') : Stranded s' t c x := by
  refine ⟨(hcall.calls_ne (Ne.symm ht)).trans hst.call, hst.dropped, hst.committed, hst.pending,
    hcall.coinsOf _ ▸ hst.mem, fun t'' c'' hc'' ht'' hd'' => ?_⟩
  by_cases htt : t'' = t'
  · subst htt
    obtain ⟨htx, hcom', -⟩ := hcall.of_isDone hc' hc'' hd''
    exact htx ▸ (hst.not_mem_payment hi hcom).2 t'' c' hc' ht hcom'
  · exact hst.returned t'' c'' ((hcall.calls_ne htt).symm.trans hc'') ht'' hd''

/-- One step with honest callers keeps a call stranded and passes none of its coins to
`add_new_coins`; unless the chain may still execute the stranded call's own transaction, it
leaves them on chain as they are. -/
theorem step (hst : Stranded s t c x) (hi : CustodyInv s) (hcom : CommitInv s) {cfg : Config}
    {a : Action} (h : Step cfg s a s') :
    Stranded s' t c x ∧ s'.log.countP (Event.adds x) = s.log.countP (Event.adds x) ∧
      (c.phase.inDoubt = false → s'.ledger x = s.ledger x) := by
  obtain ⟨hpend, hfree⟩ := hst.not_mem_payment hi hcom
  have hne : ∀ {t' c'}, s.calls t' = some c' → c'.dropped = false → t' ≠ t := fun hc' hd' ht => by
    subst ht
    cases hst.call.symm.trans hc'
    simp [hst.dropped] at hd'
  cases h with
  | reserveGas _ _ _ _ store r hres =>
    refine ⟨hst.of_calls rfl ?_, rfl, fun _ => rfl⟩
    rw [Store.coinsOf_reserveGasCoins hres, if_neg (Nat.ne_of_lt (hi.calls t c hst.call).reserved)]
  | executeTransaction t' r txData ht' =>
    have : t' ≠ t := by
      rintro rfl
      simp [hst.call] at ht'
    exact ⟨hst.of_update this rfl rfl nofun, rfl, fun _ => rfl⟩
  | call t' o c' _ hc' hd' hcall =>
    have hxp := hfree t' c' hc' (hne hc' hd')
    refine ⟨hst.of_callStep hi hcom hc' (hne hc' hd') hcall, ?_⟩
    cases hcall with
    | executed _ _ _ _ _ hp hex | lost _ _ _ _ _ hp hex =>
      obtain ⟨-, -, -, -, -, -, -, hledger⟩ := Ledger.execute_eq_some hex
      exact ⟨by simp [List.countP_cons, Event.adds], fun _ => hledger x (hxp (by rw [hp]; rfl))⟩
    | releaseOk coins response hp | releaseFail coins response hp =>
      have hx : x ∉ ids coins := fun h =>
        hxp (by rw [hp]; rfl) (((hi.calls t' c' hc').release coins response hp).2 h)
      exact ⟨by simp [List.countP_cons, Event.adds, hx], fun _ => rfl⟩
    | _ => exact ⟨by simp [List.countP_cons, Event.adds], fun _ => rfl⟩
  | drop t' c' hc' hd' =>
    exact ⟨hst.of_update (hne hc' hd') rfl rfl (hst.returned t' c' hc' (hne hc' hd')), rfl,
      fun _ => rfl⟩
  | sweep o s'' hsweep =>
    cases hsweep with
    | releaseOk coins hsw | releaseFail coins hsw =>
      have hx : x ∉ ids coins := by simpa [hsw] using hpend
      exact ⟨hst.of_calls rfl rfl, by simp [List.countP_cons, Event.adds, hx], fun _ => rfl⟩
    | expireNone _ _ | expireSome _ _ =>
      exact ⟨hst.of_calls rfl (by simp), by simp [List.countP_cons, Event.adds], fun _ => rfl⟩
    | expireFail _ | lookupFail _ _ =>
      exact ⟨hst.of_calls rfl rfl, by simp [List.countP_cons, Event.adds], fun _ => rfl⟩
    | lookup _ _ _ _ | wake _ | cancel _ _ => exact ⟨hst.of_calls rfl rfl, rfl, fun _ => rfl⟩
  | containerDrop _ =>
    exact ⟨hst.of_calls rfl rfl, by simp [List.countP_cons, Event.adds], fun _ => rfl⟩
  | tick _ | sync _ => exact ⟨hst.of_calls rfl rfl, rfl, fun _ => rfl⟩
  | settle t' n digest c' ledger effects hc' hdoubt hex =>
    refine ⟨hst.of_calls rfl rfl, rfl, fun hc => ?_⟩
    have ht : t' ≠ t := by
      rintro rfl
      cases hst.call.symm.trans hc'
      rw [hc] at hdoubt
      cases hdoubt
    obtain ⟨-, -, -, -, -, -, -, hledger⟩ := Ledger.execute_eq_some hex
    exact hledger x (hfree t' c' hc' ht (Phase.committed_of_inDoubt hdoubt))

end Stranded

/-- With honest callers, a call dropped after its commit point and before returning strands its
reservation's coins: in every continuation the call stays where it was and no `add_new_coins`
passes any of them; unless it was dropped while the chain might still execute its transaction,
the chain keeps them as they are. -/
theorem dropped_call_leaks {cfg : Config} {pool : List GasCoin} {s : State} {t : ℕ} {c : Call}
    {x : ObjectID} (hpool : (ids pool).Nodup) (hs : Reaches cfg honest (init pool) s)
    (hst : Stranded s t c x) {s' : State} (hs' : Reaches cfg honest s s') :
    s'.calls t = some c ∧ s'.log.countP (Event.adds x) = s.log.countP (Event.adds x) ∧
      (c.phase.inDoubt = false → s'.ledger x = s.ledger x) := by
  have := hs'.rec_reach (P := fun s₁ => Stranded s₁ t c x ∧
      s₁.log.countP (Event.adds x) = s.log.countP (Event.adds x) ∧
        (c.phase.inDoubt = false → s₁.ledger x = s.ledger x))
    ⟨hst, rfl, fun _ => rfl⟩ fun _ _ _ hr ⟨hst₁, hcount, hledger⟩ _ h =>
      let ⟨hst₂, hcount₂, hledger₂⟩ := hst₁.step (custodyInv_of_honest hpool (hs.trans hr))
        (commitInv_of_reaches (hs.trans hr)) h
      ⟨hst₂, hcount₂.trans hcount, fun hd => (hledger₂ hd).trans (hledger hd)⟩
  exact ⟨this.1.call, this.2⟩

/-- The one-coin pool with an honest caller: the coin is reserved, a call pays with it and passes
`ready_for_execution`, then its caller drops the future while it reads the balance. -/
def droppedCallRun : List Action :=
  [.reserveGas none 5 1000 onePool,
    .executeTransaction 0 0 ⟨.programmableTransaction [], ⟨[(1, 1, 0)], 0⟩⟩, .run 0 .ok, .drop 0]

/-- The state after `droppedCallRun`. -/
def droppedCallState : State := runState (cfgOne .upToDate) honest (init onePool) droppedCallRun

/-- After the drop, in every continuation with honest callers, coin `1` of the reservation whose
`ready_for_execution` succeeded still exists on chain and is never passed to `add_new_coins`. -/
theorem dropped_call_never_returns_coin :
    Reaches (cfgOne .upToDate) honest (init onePool) droppedCallState ∧
      .ready 0 0 true ∈ droppedCallState.log ∧
      ∀ s', Reaches (cfgOne .upToDate) honest droppedCallState s' →
        (s'.ledger 1).isSome ∧ s'.log.countP (Event.adds 1) = 0 := by
  have hs : Reaches (cfgOne .upToDate) honest (init onePool) droppedCallState :=
    reaches_runState droppedCallRun (by decide)
  have hst : Stranded droppedCallState 0
      ⟨0, ⟨.programmableTransaction [], ⟨[(1, 1, 0)], 0⟩⟩, .balance, true⟩ 1 := by
    refine ⟨rfl, rfl, rfl, rfl, by decide, fun t c hc ht _ => absurd ?_ ht⟩
    obtain ⟨r, txData, hmem⟩ := calls_runState (by decide) (fun _ => rfl) hc
    simp only [droppedCallRun, List.mem_cons, Action.executeTransaction.injEq, reduceCtorEq,
      false_or, List.not_mem_nil, or_false] at hmem
    exact hmem.1
  refine ⟨hs, by decide, fun s' hs' => ?_⟩
  obtain ⟨-, hcount, hledger⟩ := dropped_call_leaks (by decide) hs hst hs'
  rw [hcount, hledger rfl]
  decide

/-! ## Two calls in flight -/

/-- With honest callers, in every run from a pool of distinct coins and whatever the fullnode
returns, two calls between their commit point and their return never pay with a common coin, and
the coin unlocker holds none of the coins either pays with: the pool never has two transactions
in flight that share a gas coin. -/
theorem no_shared_payment_of_honest {cfg : Config} {pool : List GasCoin} {s : State}
    (hpool : (ids pool).Nodup) (hs : Reaches cfg honest (init pool) s) {t t' : ℕ} {c c' : Call}
    (hc : s.calls t = some c) (hc' : s.calls t' = some c') (hne : t ≠ t')
    (hcom : c.phase.committed) (hd : c.phase.isDone = false)
    (hcom' : c'.phase.committed) (hd' : c'.phase.isDone = false) :
    c.txData.paymentIds.Disjoint c'.txData.paymentIds ∧
      ∀ x ∈ c.txData.paymentIds, x ∉ s.sweeper.pendingIds := by
  have hi := custodyInv_of_honest hpool hs
  have hcm := commitInv_of_reaches hs
  refine ⟨fun x hx hx' => ?_, fun x hx => (hi.payment_disjoint hcm hc hcom hd hx).1⟩
  exact (hi.payment_disjoint hcm hc hcom hd hx).2 t' c' hc' (Ne.symm hne) hcom' hd' hx'

/-- Coins `1` and `2` are reserved separately, and a call on each reservation, paying with its
coin, passes `ready_for_execution`. -/
def twoInFlightState : State :=
  runState (cfgOne .upToDate) honest (init twoPool)
    [.reserveGas none 5 1000 [⟨0, (1, 1, 0), 10⟩], .reserveGas none 5 1000 [⟨0, (2, 1, 0), 10⟩],
      .executeTransaction 0 0 ⟨.programmableTransaction [], ⟨[(1, 1, 0)], 0⟩⟩,
      .executeTransaction 1 1 ⟨.programmableTransaction [], ⟨[(2, 1, 0)], 0⟩⟩,
      .run 0 .ok, .run 1 .ok]

theorem no_shared_payment_of_honest_twoInFlightState :
    let c₀ : Call := ⟨0, ⟨.programmableTransaction [], ⟨[(1, 1, 0)], 0⟩⟩, .balance, false⟩
    let c₁ : Call := ⟨1, ⟨.programmableTransaction [], ⟨[(2, 1, 0)], 0⟩⟩, .balance, false⟩
    (ids twoPool).Nodup ∧ Reaches (cfgOne .upToDate) honest (init twoPool) twoInFlightState ∧
      twoInFlightState.calls 0 = some c₀ ∧ twoInFlightState.calls 1 = some c₁ ∧
      c₀.txData.paymentIds.Disjoint c₁.txData.paymentIds ∧
      ∀ x ∈ c₀.txData.paymentIds, x ∉ twoInFlightState.sweeper.pendingIds := by
  intro c₀ c₁
  have hs : Reaches (cfgOne .upToDate) honest (init twoPool) twoInFlightState :=
    reaches_runState _ (by decide)
  have h₀ : twoInFlightState.calls 0 = some c₀ := rfl
  have h₁ : twoInFlightState.calls 1 = some c₁ := rfl
  exact ⟨by decide, hs, h₀, h₁,
    no_shared_payment_of_honest (by decide) hs h₀ h₁ (by decide) rfl rfl rfl rfl⟩

end GasPool

import GasPool.Types
import Mathlib.Data.List.Perm.Subperm
import Mathlib.Logic.Function.Basic
import Mathlib.Algebra.Order.Ring.Nat

/-!
# The coin store

The pool core reaches its coin store through the trait `crate::storage::Storage`, whose
implementations are not part of the sources. What the core relies on is the store's contract
(spec, section 4.3): `reserve_gas_coins`, `ready_for_execution`, `add_new_coins` and
`expire_coins` are atomic, and each does what is written there. This module is that contract,
as pure functions on the store's state.

A reservation id is allocated monotonically: it is the count of reservations made before.
The record of a reservation is kept after it ends, in its final state, so that
`ready_for_execution` can answer `NotFound` for a reservation already expired or consumed.

The store has no operation that ends an IN_FLIGHT reservation: `add_new_coins` takes coins, not
a reservation. The spec's TERMINAL state (section 3) is reached when the orchestrator returns
the coins it took at the commit point; `Store.markTerminal` records it, and the orchestrator
calls it together with its `add_new_coins`.
-/

namespace GasPool

/-- The states of a reservation (spec, section 3). -/
inductive ReservationStatus
  | active
  | inFlight
  | expired
  | terminal
deriving DecidableEq, Repr

/-- A reservation: its sponsor, the coins it holds, its deadline (in ms) and its state. -/
structure Reservation where
  sponsor : SuiAddress
  coins : List GasCoin
  deadline : ℕ
  status : ReservationStatus
deriving DecidableEq, Repr

/-- Modelled from the spec: the state of the coin store of section 4.3, an implementation of
`crate::storage::Storage`. `available` holds the available coins of every sponsor, each
tagged with its owner; `reservations` holds every reservation made, under its id. -/
structure Store where
  available : List GasCoin
  reservations : ReservationID → Option Reservation
  nextId : ReservationID

namespace Store

/-- Modelled from the spec: `reserve_gas_coins(sponsor, gas_budget, duration_ms)`. The coins
chosen are the store's selection policy: any coins of the sponsor's available set whose
balances reach the budget. They leave the available set and an ACTIVE reservation with
deadline `now + duration_ms` holds them. `none` is `NoCapacity`. -/
def reserveGasCoins (st : Store) (now : ℕ) (sponsor : SuiAddress) (gasBudget : U64)
    (durationMs : ℕ) (coins : List GasCoin) : Option (Store × ReservationID) :=
  if coins.Subperm (st.available.filter (·.owner == sponsor)) ∧
      gasBudget.toNat ≤ (coins.map (·.balance.toNat)).sum then
    let res : Reservation := ⟨sponsor, coins, now + durationMs, .active⟩
    some ({ available := st.available.diff coins,
            reservations := Function.update st.reservations st.nextId (some res),
            nextId := st.nextId + 1 }, st.nextId)
  else none

/-- The store with reservation `r` replaced by `res`. -/
def setReservation (st : Store) (r : ReservationID) (res : Reservation) : Store :=
  { st with reservations := Function.update st.reservations r (some res) }

/-- Modelled from the spec: `ready_for_execution(sponsor, reservation_id)` moves an ACTIVE
reservation of the sponsor to IN_FLIGHT; `none` is `NotFound`. -/
def readyForExecution (st : Store) (sponsor : SuiAddress) (r : ReservationID) : Option Store :=
  match st.reservations r with
  | some res =>
    if res.status = .active ∧ res.sponsor = sponsor then
      some (st.setReservation r { res with status := .inFlight })
    else none
  | none => none

/-- One insert of `add_new_coins`: a no-op when a coin with the same `(ObjectId, Version)` is
already available. -/
def addCoin (available : List GasCoin) (c : GasCoin) : List GasCoin :=
  if available.any (fun a => a.id == c.id && a.version == c.version) then available
  else available ++ [c]

/-- Modelled from the spec: `add_new_coins(coins)` inserts each coin into the available set of
its owner, idempotently on `(ObjectId, Version)`. -/
def addNewCoins (st : Store) (coins : List GasCoin) : Store :=
  { st with available := coins.foldl addCoin st.available }

/-- An ACTIVE reservation past its deadline at `now`. -/
def Reservation.isDue (now : ℕ) (res : Reservation) : Bool :=
  res.status == .active && decide (res.deadline ≤ now)

/-- The reservations `expire_coins` takes at `now`, in id order. -/
def dueIds (st : Store) (now : ℕ) : List ReservationID :=
  (List.range st.nextId).filter fun r => (st.reservations r).any (Reservation.isDue now)

/-- The coins of reservation `r` (none when there is no such reservation). -/
def coinsOf (st : Store) (r : ReservationID) : List GasCoin :=
  ((st.reservations r).map Reservation.coins).getD []

/-- Modelled from the spec: `expire_coins()` moves every ACTIVE reservation past its deadline
to EXPIRED and returns the ids of their coins; IN_FLIGHT reservations are skipped. -/
def expireCoins (st : Store) (now : ℕ) : Store × List ObjectID :=
  ({ st with reservations := fun r => (st.reservations r).map fun res =>
      if Reservation.isDue now res then { res with status := .expired } else res },
   (st.dueIds now).flatMap fun r => ids (st.coinsOf r))

/-- The spec's TERMINAL transition (section 3): the orchestrator has returned the coins of the
IN_FLIGHT reservation `r`. -/
def markTerminal (st : Store) (r : ReservationID) : Store :=
  { st with reservations := Function.update st.reservations r ((st.reservations r).map fun res =>
      if res.status = .inFlight then { res with status := .terminal } else res) }

/-! ## Operation lemmas -/

@[simp] theorem addNewCoins_reservations (st : Store) (coins : List GasCoin) :
    (st.addNewCoins coins).reservations = st.reservations := rfl

@[simp] theorem addNewCoins_nextId (st : Store) (coins : List GasCoin) :
    (st.addNewCoins coins).nextId = st.nextId := rfl

@[simp] theorem markTerminal_available (st : Store) (r : ReservationID) :
    (st.markTerminal r).available = st.available := rfl

@[simp] theorem markTerminal_nextId (st : Store) (r : ReservationID) :
    (st.markTerminal r).nextId = st.nextId := rfl

@[simp] theorem expireCoins_available (st : Store) (now : ℕ) :
    (st.expireCoins now).1.available = st.available := rfl

@[simp] theorem expireCoins_nextId (st : Store) (now : ℕ) :
    (st.expireCoins now).1.nextId = st.nextId := rfl

theorem markTerminal_reservations (st : Store) (r r' : ReservationID) :
    (st.markTerminal r).reservations r' = if r' = r then (st.reservations r).map (fun res =>
      if res.status = .inFlight then { res with status := .terminal } else res)
      else st.reservations r' := by
  by_cases h : r' = r
  · subst h; simp [markTerminal]
  · simp [markTerminal, h]

theorem expireCoins_reservations (st : Store) (now : ℕ) (r : ReservationID) :
    (st.expireCoins now).1.reservations r = (st.reservations r).map fun res =>
      if Reservation.isDue now res then { res with status := .expired } else res := rfl

/-- What `ready_for_execution` does when it succeeds: the reservation was ACTIVE, of the
sponsor, and is now IN_FLIGHT; nothing else changes. -/
theorem readyForExecution_eq_some {st st' : Store} {sponsor : SuiAddress} {r : ReservationID}
    (h : st.readyForExecution sponsor r = some st') :
    ∃ res, st.reservations r = some res ∧ res.status = .active ∧ res.sponsor = sponsor ∧
      st' = st.setReservation r { res with status := .inFlight } := by
  unfold readyForExecution at h
  split at h
  · rename_i res hres
    split_ifs at h with hc
    · exact ⟨res, hres, hc.1, hc.2, (Option.some.inj h).symm⟩
  · cases h

/-- What `reserve_gas_coins` does when it succeeds. -/
theorem reserveGasCoins_eq_some {st st' : Store} {now : ℕ} {sponsor : SuiAddress}
    {gasBudget : U64} {durationMs : ℕ} {coins : List GasCoin} {r : ReservationID}
    (h : st.reserveGasCoins now sponsor gasBudget durationMs coins = some (st', r)) :
    coins.Subperm (st.available.filter (·.owner == sponsor)) ∧ r = st.nextId ∧
      st' = { available := st.available.diff coins,
              reservations := Function.update st.reservations st.nextId
                (some ⟨sponsor, coins, now + durationMs, .active⟩),
              nextId := st.nextId + 1 } := by
  unfold reserveGasCoins at h
  split_ifs at h with hc
  obtain ⟨rfl, rfl⟩ := Prod.mk.inj (Option.some.inj h).symm
  exact ⟨hc.1, rfl, rfl⟩

/-- A reservation `expire_coins` takes is ACTIVE and past its deadline. -/
theorem mem_dueIds {st : Store} {now : ℕ} {r : ReservationID} :
    r ∈ st.dueIds now ↔ r < st.nextId ∧ ∃ res, st.reservations r = some res ∧
      res.status = .active ∧ res.deadline ≤ now := by
  unfold dueIds
  rw [List.mem_filter, List.mem_range]
  cases st.reservations r <;> simp [Reservation.isDue]

/-! ## Reservation states -/

/-- The state of reservation `r`; `none` when it was never made. -/
def statusOf (st : Store) (r : ReservationID) : Option ReservationStatus :=
  (st.reservations r).map Reservation.status

@[simp] theorem statusOf_addNewCoins (st : Store) (coins : List GasCoin) (r : ReservationID) :
    (st.addNewCoins coins).statusOf r = st.statusOf r := rfl

theorem statusOf_setReservation (st : Store) (r : ReservationID) (res : Reservation)
    (r' : ReservationID) :
    (st.setReservation r res).statusOf r' = if r' = r then some res.status else st.statusOf r' := by
  by_cases h : r' = r
  · subst h; simp [statusOf, setReservation]
  · simp [statusOf, setReservation, h]

/-- `markTerminal` ends `r` if it is IN_FLIGHT, and nothing else. -/
theorem statusOf_markTerminal (st : Store) (r r' : ReservationID) :
    (st.markTerminal r).statusOf r' =
      if r' = r ∧ st.statusOf r = some .inFlight then some .terminal else st.statusOf r' := by
  rw [statusOf, markTerminal_reservations]
  by_cases h : r' = r
  · subst h
    cases hr : st.reservations r' with
    | none => simp [statusOf, hr]
    | some res => by_cases hs : res.status = .inFlight <;> simp [statusOf, hr, hs]
  · simp [h, statusOf]

/-- `expire_coins` moves the due reservations to EXPIRED, and nothing else. -/
theorem statusOf_expireCoins (st : Store) (now : ℕ) (r : ReservationID) :
    (st.expireCoins now).1.statusOf r =
      if (st.reservations r).any (Reservation.isDue now) then some .expired else st.statusOf r := by
  rw [statusOf, expireCoins_reservations]
  cases hr : st.reservations r with
  | none => simp [statusOf, hr]
  | some res => by_cases h : Reservation.isDue now res <;> simp [statusOf, hr, h]

/-- A due reservation is ACTIVE. -/
theorem statusOf_of_isDue {st : Store} {now : ℕ} {r : ReservationID}
    (h : (st.reservations r).any (Reservation.isDue now)) : st.statusOf r = some .active := by
  cases hr : st.reservations r with
  | none => simp [hr] at h
  | some res =>
    simp only [hr, Option.any_some, Reservation.isDue, Bool.and_eq_true, beq_iff_eq] at h
    simp [statusOf, hr, h.1]

/-- When no reservation lies at or past `nextId`, `expire_coins` reports exactly the due
reservations. -/
theorem mem_dueIds_iff {st : Store} {now : ℕ} {r : ReservationID}
    (hfresh : ∀ r, st.nextId ≤ r → st.statusOf r = none) :
    r ∈ st.dueIds now ↔ (st.reservations r).any (Reservation.isDue now) := by
  unfold dueIds
  rw [List.mem_filter, List.mem_range, and_iff_right_iff_imp]
  intro h
  by_contra hr
  simp [Option.map_eq_none'.1 (hfresh r (Nat.le_of_not_lt hr))] at h

/-- What a successful `ready_for_execution` does to the states: `r` goes from ACTIVE to
IN_FLIGHT. -/
theorem statusOf_readyForExecution {st st' : Store} {sponsor : SuiAddress} {r : ReservationID}
    (h : st.readyForExecution sponsor r = some st') :
    st.statusOf r = some .active ∧ st'.nextId = st.nextId ∧
      ∀ r', st'.statusOf r' = if r' = r then some .inFlight else st.statusOf r' := by
  obtain ⟨res, hres, hact, -, rfl⟩ := readyForExecution_eq_some h
  exact ⟨by simp [statusOf, hres, hact], rfl, fun r' => statusOf_setReservation _ _ _ r'⟩

/-- What a successful `reserve_gas_coins` does to the states: a new ACTIVE reservation at
`nextId`. -/
theorem statusOf_reserveGasCoins {st st' : Store} {now : ℕ} {sponsor : SuiAddress}
    {gasBudget : U64} {durationMs : ℕ} {coins : List GasCoin} {r : ReservationID}
    (h : st.reserveGasCoins now sponsor gasBudget durationMs coins = some (st', r)) :
    st'.nextId = st.nextId + 1 ∧
      ∀ r', st'.statusOf r' = if r' = st.nextId then some .active else st.statusOf r' := by
  obtain ⟨-, -, rfl⟩ := reserveGasCoins_eq_some h
  refine ⟨rfl, fun r' => ?_⟩
  by_cases h : r' = st.nextId
  · subst h; simp [statusOf]
  · simp [statusOf, h]

theorem statusOf_eq_none {st : Store} {r : ReservationID} :
    st.statusOf r = none ↔ st.reservations r = none := Option.map_eq_none'


/-! ## Reservation coins

The coins of a reservation are fixed when it is made; every later operation changes its state
only. -/

@[simp] theorem coinsOf_addNewCoins (st : Store) (coins : List GasCoin) (r : ReservationID) :
    (st.addNewCoins coins).coinsOf r = st.coinsOf r := rfl

@[simp] theorem coinsOf_markTerminal (st : Store) (r r' : ReservationID) :
    (st.markTerminal r).coinsOf r' = st.coinsOf r' := by
  rw [coinsOf, markTerminal_reservations]
  split_ifs with h
  · subst h
    cases hr : st.reservations r' with
    | none => simp [coinsOf, hr]
    | some res => by_cases hs : res.status = .inFlight <;> simp [coinsOf, hr, hs]
  · rfl

@[simp] theorem coinsOf_expireCoins (st : Store) (now : ℕ) (r : ReservationID) :
    (st.expireCoins now).1.coinsOf r = st.coinsOf r := by
  rw [coinsOf, expireCoins_reservations]
  cases hr : st.reservations r with
  | none => simp [coinsOf, hr]
  | some res => by_cases h : Reservation.isDue now res <;> simp [coinsOf, hr, h]

theorem coinsOf_readyForExecution {st st' : Store} {sponsor : SuiAddress} {r : ReservationID}
    (h : st.readyForExecution sponsor r = some st') (r' : ReservationID) :
    st'.coinsOf r' = st.coinsOf r' := by
  obtain ⟨res, hres, -, -, rfl⟩ := readyForExecution_eq_some h
  by_cases h : r' = r
  · subst h; simp [coinsOf, setReservation, hres]
  · simp [coinsOf, setReservation, h]

theorem coinsOf_reserveGasCoins {st st' : Store} {now : ℕ} {sponsor : SuiAddress}
    {gasBudget : U64} {durationMs : ℕ} {coins : List GasCoin} {r : ReservationID}
    (h : st.reserveGasCoins now sponsor gasBudget durationMs coins = some (st', r))
    (r' : ReservationID) : st'.coinsOf r' = if r' = st.nextId then coins else st.coinsOf r' := by
  obtain ⟨-, -, rfl⟩ := reserveGasCoins_eq_some h
  by_cases h : r' = st.nextId
  · subst h; simp [coinsOf]
  · simp [coinsOf, h]

/-! ## Reservation sponsors

Like its coins, the sponsor of a reservation is fixed when it is made. -/

/-- The sponsor of reservation `r` (none when there is no such reservation). -/
def sponsorOf (st : Store) (r : ReservationID) : Option SuiAddress :=
  (st.reservations r).map Reservation.sponsor

@[simp] theorem sponsorOf_addNewCoins (st : Store) (coins : List GasCoin) (r : ReservationID) :
    (st.addNewCoins coins).sponsorOf r = st.sponsorOf r := rfl

@[simp] theorem sponsorOf_markTerminal (st : Store) (r r' : ReservationID) :
    (st.markTerminal r).sponsorOf r' = st.sponsorOf r' := by
  rw [sponsorOf, markTerminal_reservations]
  split_ifs with h
  · subst h
    rw [Option.map_map]
    congr 1
    funext res
    rw [Function.comp_apply]
    split_ifs <;> rfl
  · rfl

@[simp] theorem sponsorOf_expireCoins (st : Store) (now : ℕ) (r : ReservationID) :
    (st.expireCoins now).1.sponsorOf r = st.sponsorOf r := by
  rw [sponsorOf, expireCoins_reservations, Option.map_map]
  congr 1
  funext res
  rw [Function.comp_apply]
  split_ifs <;> rfl

theorem sponsorOf_readyForExecution {st st' : Store} {sponsor : SuiAddress} {r : ReservationID}
    (h : st.readyForExecution sponsor r = some st') (r' : ReservationID) :
    st'.sponsorOf r' = st.sponsorOf r' := by
  obtain ⟨res, hres, -, -, rfl⟩ := readyForExecution_eq_some h
  by_cases h : r' = r
  · subst h; simp [sponsorOf, setReservation, hres]
  · simp [sponsorOf, setReservation, h]

/-- `ready_for_execution` succeeds only on a reservation of the sponsor it is given. -/
theorem sponsorOf_of_readyForExecution {st st' : Store} {sponsor : SuiAddress}
    {r : ReservationID} (h : st.readyForExecution sponsor r = some st') :
    st.sponsorOf r = some sponsor := by
  obtain ⟨res, hres, -, rfl, -⟩ := readyForExecution_eq_some h
  simp [sponsorOf, hres]

theorem sponsorOf_reserveGasCoins {st st' : Store} {now : ℕ} {sponsor : SuiAddress}
    {gasBudget : U64} {durationMs : ℕ} {coins : List GasCoin} {r : ReservationID}
    (h : st.reserveGasCoins now sponsor gasBudget durationMs coins = some (st', r))
    (r' : ReservationID) :
    st'.sponsorOf r' = if r' = st.nextId then some sponsor else st.sponsorOf r' := by
  obtain ⟨-, -, rfl⟩ := reserveGasCoins_eq_some h
  by_cases h : r' = st.nextId
  · subst h; simp [sponsorOf]
  · simp [sponsorOf, h]

theorem sponsorOf_ne_none {st : Store} {r : ReservationID} :
    st.sponsorOf r ≠ none ↔ st.statusOf r ≠ none := by
  simp [sponsorOf, statusOf]

/-! ## What the store offers

The coins the store can hand out or has handed out to be paid with: the available ones and those
of ACTIVE reservations. Every operation but `add_new_coins` only takes coins off this offer, and
`add_new_coins` puts on it only the coins it is given. -/

/-- Every reservation holds coins of its sponsor. -/
def Owned (st : Store) : Prop :=
  ∀ r res, st.reservations r = some res → ∀ c ∈ res.coins, c.owner = res.sponsor

/-- The store offers coin `c`: it is available, or a coin of an ACTIVE reservation. -/
def Offers (st : Store) (c : GasCoin) : Prop :=
  c ∈ st.available ∨ ∃ r, st.statusOf r = some .active ∧ c ∈ st.coinsOf r

/-- `reserve_gas_coins` selects from the sponsor's own available coins. -/
theorem Owned.reserveGasCoins {st st' : Store} {now : ℕ} {sponsor : SuiAddress}
    {gasBudget : U64} {durationMs : ℕ} {coins : List GasCoin} {r : ReservationID}
    (ho : st.Owned)
    (h : st.reserveGasCoins now sponsor gasBudget durationMs coins = some (st', r)) :
    st'.Owned := by
  obtain ⟨hsub, -, rfl⟩ := reserveGasCoins_eq_some h
  intro r' res' h'
  simp only [Function.update_apply] at h'
  split_ifs at h'
  · cases h'
    intro c hc
    simpa using (List.mem_filter.1 (hsub.subset hc)).2
  · exact ho r' res' h'

theorem Owned.readyForExecution {st st' : Store} {sponsor : SuiAddress} {r : ReservationID}
    (ho : st.Owned) (h : st.readyForExecution sponsor r = some st') : st'.Owned := by
  obtain ⟨res, hres, -, -, rfl⟩ := readyForExecution_eq_some h
  intro r' res' h'
  simp only [setReservation, Function.update_apply] at h'
  split_ifs at h' with hr
  · cases h'
    exact ho r res hres
  · exact ho r' res' h'

theorem Owned.markTerminal {st : Store} (ho : st.Owned) (r : ReservationID) :
    (st.markTerminal r).Owned := by
  intro r' res' h'
  rw [markTerminal_reservations] at h'
  split_ifs at h'
  · obtain ⟨res, hres, rfl⟩ := Option.map_eq_some'.1 h'
    split_ifs <;> exact ho r res hres
  · exact ho r' res' h'

theorem Owned.expireCoins {st : Store} (ho : st.Owned) (now : ℕ) :
    (st.expireCoins now).1.Owned := by
  intro r res' h'
  rw [expireCoins_reservations] at h'
  obtain ⟨res, hres, rfl⟩ := Option.map_eq_some'.1 h'
  split_ifs <;> exact ho r res hres

/-- `add_new_coins` leaves only coins it was given, or coins already available. -/
theorem mem_foldl_addCoin {available coins : List GasCoin} {c : GasCoin}
    (h : c ∈ coins.foldl addCoin available) : c ∈ available ∨ c ∈ coins := by
  induction coins generalizing available with
  | nil => exact .inl h
  | cons d coins ih =>
    rcases ih h with h | h
    · unfold addCoin at h
      split_ifs at h
      · exact .inl h
      · rcases List.mem_append.1 h with h | h
        · exact .inl h
        · exact .inr (List.mem_singleton.1 h ▸ List.mem_cons_self _ _)
    · exact .inr (List.mem_cons_of_mem _ h)

/-- An operation that keeps the coins of every reservation, takes coins off the available set
only and makes no reservation ACTIVE offers no new coin. -/
theorem Offers.of_le {st st' : Store} (hcoins : ∀ r, st'.coinsOf r = st.coinsOf r)
    (havail : st'.available ⊆ st.available)
    (hact : ∀ r, st'.statusOf r = some .active → st.statusOf r = some .active)
    {c : GasCoin} (hc : st'.Offers c) :
    st.Offers c :=
  hc.imp (fun h => havail h) fun ⟨r, hr, h⟩ => ⟨r, hact r hr, hcoins r ▸ h⟩

/-- `reserve_gas_coins` moves available coins to the new ACTIVE reservation. -/
theorem Offers.of_reserveGasCoins {st st' : Store} {now : ℕ} {sponsor : SuiAddress}
    {gasBudget : U64} {durationMs : ℕ} {coins : List GasCoin} {r : ReservationID}
    (h : st.reserveGasCoins now sponsor gasBudget durationMs coins = some (st', r))
    {c : GasCoin} (hc : st'.Offers c) : st.Offers c := by
  have hco := coinsOf_reserveGasCoins h
  obtain ⟨-, hst⟩ := statusOf_reserveGasCoins h
  obtain ⟨hsub, -, rfl⟩ := reserveGasCoins_eq_some h
  rcases hc with hc | ⟨r', hact, hc⟩
  · exact .inl (List.diff_subset _ _ hc)
  · rw [hco] at hc
    rw [hst] at hact
    split_ifs at hc hact
    · exact .inl (List.mem_of_mem_filter (hsub.subset hc))
    · exact .inr ⟨r', hact, hc⟩

theorem Offers.of_readyForExecution {st st' : Store} {sponsor : SuiAddress} {r : ReservationID}
    (h : st.readyForExecution sponsor r = some st') {c : GasCoin} (hc : st'.Offers c) :
    st.Offers c := by
  obtain ⟨-, -, hst⟩ := statusOf_readyForExecution h
  refine Offers.of_le (coinsOf_readyForExecution h) ?_ (fun r' hr' => ?_) hc
  · obtain ⟨res, -, -, -, rfl⟩ := readyForExecution_eq_some h
    exact List.Subset.refl _
  · rw [hst] at hr'
    split_ifs at hr'
    · cases hr'
    · exact hr'

theorem Offers.of_markTerminal {st : Store} {r : ReservationID} {c : GasCoin}
    (hc : (st.markTerminal r).Offers c) : st.Offers c := by
  refine Offers.of_le (coinsOf_markTerminal st r) (fun _ h => h) (fun r' hr' => ?_) hc
  rw [statusOf_markTerminal] at hr'
  split_ifs at hr'
  · cases hr'
  · exact hr'

theorem Offers.of_expireCoins {st : Store} {now : ℕ} {c : GasCoin}
    (hc : (st.expireCoins now).1.Offers c) : st.Offers c := by
  refine Offers.of_le (coinsOf_expireCoins st now) (fun _ h => h) (fun r' hr' => ?_) hc
  rw [statusOf_expireCoins] at hr'
  split_ifs at hr'
  · cases hr'
  · exact hr'

/-- `add_new_coins` offers only the coins it is given besides those already offered. -/
theorem Offers.of_addNewCoins {st : Store} {coins : List GasCoin} {c : GasCoin}
    (hc : (st.addNewCoins coins).Offers c) : st.Offers c ∨ c ∈ coins := by
  rcases hc with hc | hc
  · exact (mem_foldl_addCoin hc).imp_left Or.inl
  · exact .inl (.inr hc)

end Store

end GasPool

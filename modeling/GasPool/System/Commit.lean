import GasPool.System.Steps

/-!
# The commit point

`ready_for_execution` (`gas_pool_core.rs:117-119`) is the commit point of a reservation: it
moves an ACTIVE reservation to IN_FLIGHT atomically, and `expire_coins` only takes ACTIVE
reservations. The store's atomicity is what makes the two paths that take a reservation's
coins back, the call that committed to it and the coin unlocker, exclude each other, however
many calls name the reservation and however they interleave with the unlocker.

`CommitInv` relates the store's reservation states, the calls and the log in every reachable
state. `reservation_consumed_once` reads off what it gives for one reservation: at most one
call commits to it; only that call signs and submits; the unlocker never expires it once a call
committed; a call that failed its checks or `ready_for_execution` returned having called
nothing but `ready_for_execution`; and the reservation's coins have been taken back at most
once: once when it is EXPIRED or TERMINAL, and not at all otherwise.

"Taken back" counts the store calls, not the coins. The committed call's `add_new_coins` passes
what the call's payment turned into, which need not be the reservation's coins
(`foreign_payment_terminal_unreturned`); and a committed call that is dropped takes nothing back,
leaving the reservation IN_FLIGHT for good (`dropped_call_never_returns_coin`).
-/

namespace GasPool

/-! ## Who takes a reservation's coins back -/

/-- `expire_coins` expired reservation `r`: the unlocker takes its coins back. -/
def Event.expires (r : ReservationID) : Event → Bool
  | .expireCoins rs _ true => decide (r ∈ rs)
  | _ => false

/-- The successful `add_new_coins` of call `t`. -/
def Event.releasesCall (t : ℕ) : Event → Bool
  | .addNewCoins (.call t') _ true => t' == t
  | _ => false

/-- The number of times the unlocker took reservation `r`'s coins back. -/
def sweeperReturns (log : List Event) (r : ReservationID) : ℕ := log.countP (Event.expires r)

/-- A call that has returned its response. -/
def Phase.isDone : Phase → Bool
  | .done _ => true
  | _ => false

/-- A call waits for a lookup only past the commit point and before it returns. -/
theorem Phase.committed_of_awaitsLookup {p : Phase} (h : p.awaitsLookup) :
    p.committed ∧ p.isDone = false := by
  cases p <;> cases h <;> exact ⟨rfl, rfl⟩

/-- Only a call past its commit point has a transaction the chain may still execute. -/
theorem Phase.committed_of_inDoubt {p : Phase} (h : p.inDoubt) : p.committed := by
  cases p <;> first | rfl | cases h

theorem Event.call?_of_releasesCall {e : Event} {t : ℕ} (h : e.releasesCall t) :
    e.call? = some t := by
  rcases e with _ | _ | _ | _ | ⟨_ | _, _, _ | _⟩ | _ | _ <;>
    simp_all [Event.releasesCall, Event.call?]

theorem Event.expires_eq_false {e : Event} {t : ℕ} (h : e.call? = some t) (r : ReservationID) :
    e.expires r = false := by
  rcases e with _ | _ | _ | _ | _ | ⟨_, _, _ | _⟩ | _ <;> simp_all [Event.expires, Event.call?]

/-! ## The invariant -/

/-- The commit-point invariant. -/
structure CommitInv (s : State) : Prop where
  /-- No reservation lies at or past the next id. -/
  fresh : ∀ r, s.store.nextId ≤ r → s.store.statusOf r = none
  /-- Every logged event of a call is of a call that exists. -/
  call_isSome : ∀ e ∈ s.log, ∀ t, e.call? = some t → (s.calls t).isSome
  /-- At most one call passes `ready_for_execution` for a reservation. -/
  ready_unique : ∀ t₁ t₂ r, .ready t₁ r true ∈ s.log → .ready t₂ r true ∈ s.log → t₁ = t₂
  /-- A call that passed `ready_for_execution` is past the commit point. -/
  ready_committed : ∀ t r, .ready t r true ∈ s.log →
    ∃ c, s.calls t = some c ∧ c.reservationId = r ∧ c.phase.committed
  /-- A call past the commit point passed `ready_for_execution` for its reservation. -/
  committed_ready : ∀ t c, s.calls t = some c → c.phase.committed →
    .ready t c.reservationId true ∈ s.log
  /-- A call before the commit point has called nothing but `ready_for_execution`. -/
  uncommitted : ∀ t c, s.calls t = some c → c.phase.committed = false →
    ∀ e ∈ s.log, e.call? = some t → e = .ready t c.reservationId false
  /-- The reservation of a call past the commit point is IN_FLIGHT until the call returns,
  then TERMINAL. -/
  committed_status : ∀ t c, s.calls t = some c → c.phase.committed →
    s.store.statusOf c.reservationId = some (if c.phase.isDone then .terminal else .inFlight)
  /-- An IN_FLIGHT or TERMINAL reservation was committed to. -/
  ready_of_status : ∀ r, s.store.statusOf r = some .inFlight ∨
    s.store.statusOf r = some .terminal → ∃ t, .ready t r true ∈ s.log
  /-- The unlocker expired a reservation once if it is EXPIRED, and never otherwise. -/
  expire_count : ∀ r,
    sweeperReturns s.log r = if s.store.statusOf r = some .expired then 1 else 0
  /-- A call released its coins once if it has returned, and never before. -/
  release_count : ∀ t c, s.calls t = some c →
    s.log.countP (Event.releasesCall t) = if c.phase.isDone then 1 else 0

theorem commitInv_init (pool : List GasCoin) : CommitInv (init pool) where
  fresh _ _ := rfl
  call_isSome _ h := nomatch h
  ready_unique _ _ _ h := nomatch h
  ready_committed _ _ h := nomatch h
  committed_ready _ _ h := nomatch h
  uncommitted _ _ h := nomatch h
  committed_status _ _ h := nomatch h
  ready_of_status _ h := by rcases h with h | h <;> cases h
  expire_count _ := rfl
  release_count _ _ h := nomatch h

namespace CommitInv

variable {s s' : State}

theorem statusOf_ne_none (hi : CommitInv s) {t : ℕ} {c : Call} (hc : s.calls t = some c)
    (hcom : c.phase.committed) : s.store.statusOf c.reservationId ≠ none := by
  simp [hi.committed_status t c hc hcom]

/-- A reservation some call committed to is IN_FLIGHT or TERMINAL. -/
theorem statusOf_of_ready (hi : CommitInv s) {t : ℕ} {r : ReservationID}
    (h : .ready t r true ∈ s.log) :
    s.store.statusOf r = some .inFlight ∨ s.store.statusOf r = some .terminal := by
  obtain ⟨c, hc, rfl, hcom⟩ := hi.ready_committed t r h
  rw [hi.committed_status t c hc hcom]
  split <;> simp

theorem update_eq_some {f : ℕ → Option Call} {t t' : ℕ} {c c' : Call}
    (h : Function.update f t (some c') t' = some c) :
    (t' = t ∧ c = c') ∨ (t' ≠ t ∧ f t' = some c) := by
  rw [Function.update_apply] at h
  split_ifs at h with ht
  · exact .inl ⟨ht, (Option.some.inj h).symm⟩
  · exact .inr ⟨ht, h⟩

/-- A step that changes neither the reservations nor the calls, and logs at most an event that
belongs to no call and expires nothing. -/
theorem of_frame (hi : CommitInv s) (hst : ∀ r, s'.store.statusOf r = s.store.statusOf r)
    (hnext : s'.store.nextId = s.store.nextId) (hcalls : s'.calls = s.calls)
    (hlog : s'.log = s.log ∨ ∃ e, s'.log = e :: s.log ∧ e.call? = none ∧ ∀ r, e.expires r = false) :
    CommitInv s' := by
  have hmem : ∀ e, e.call?.isSome → (e ∈ s'.log ↔ e ∈ s.log) := fun e he => by
    rcases hlog with hlog | ⟨e', hlog, he', -⟩ <;> rw [hlog]
    simp only [List.mem_cons, or_iff_right_iff_imp]
    rintro rfl
    simp [he'] at he
  have hready : ∀ t r ok, (Event.ready t r ok ∈ s'.log ↔ .ready t r ok ∈ s.log) := fun t r ok =>
    hmem _ rfl
  have hcount : ∀ p : Event → Bool, (∀ e, p e → e.call?.isSome ∨ ∃ r, e.expires r) →
      s'.log.countP p = s.log.countP p := fun p hp => by
    rcases hlog with hlog | ⟨e, hlog, he, hexp⟩ <;> rw [hlog]
    rw [List.countP_cons, if_neg]
    · rfl
    · intro h
      rcases hp e h with h' | ⟨r, h'⟩ <;> simp_all
  refine ⟨fun r h => ?_, fun e h t het => ?_, fun t₁ t₂ r h₁ h₂ => ?_, fun t r h => ?_,
    fun t c hc hcom => ?_, fun t c hc hcom e h het => ?_, fun t c hc hcom => ?_, fun r h => ?_,
    fun r => ?_, fun t c hc => ?_⟩
  · rw [hst]; exact hi.fresh r (hnext ▸ h)
  · rw [hcalls]; exact hi.call_isSome e ((hmem e (by simp [het])).1 h) t het
  · exact hi.ready_unique t₁ t₂ r ((hready _ _ _).1 h₁) ((hready _ _ _).1 h₂)
  · rw [hcalls]; exact hi.ready_committed t r ((hready _ _ _).1 h)
  · rw [hcalls] at hc; exact (hready _ _ _).2 (hi.committed_ready t c hc hcom)
  · rw [hcalls] at hc; exact hi.uncommitted t c hc hcom e ((hmem e (by simp [het])).1 h) het
  · rw [hcalls] at hc; rw [hst]; exact hi.committed_status t c hc hcom
  · obtain ⟨t, ht⟩ := hi.ready_of_status r (by rwa [hst] at h)
    exact ⟨t, (hready _ _ _).2 ht⟩
  · rw [sweeperReturns, hcount _ fun e h => .inr ⟨r, h⟩, hst]; exact hi.expire_count r
  · rw [hcalls] at hc
    rw [hcount _ fun e h => .inl (by simp [Event.call?_of_releasesCall h])]
    exact hi.release_count t c hc

/-- A step of call `t` that stays on its side of the commit point: the store is unchanged, the
call's reservation, commitment and completion are unchanged, and it logs at most an event of
its own that is neither a successful `ready_for_execution` nor a successful release (before the
commit point, only a failed `ready_for_execution`). -/
theorem of_call (hi : CommitInv s) {t : ℕ} {c c' : Call} (hc : s.calls t = some c)
    (hstore : s'.store = s.store) (hcalls : s'.calls = Function.update s.calls t (some c'))
    (hr : c'.reservationId = c.reservationId) (hcom : c'.phase.committed = c.phase.committed)
    (hdone : c'.phase.isDone = c.phase.isDone)
    (hlog : s'.log = s.log ∨ ∃ e, s'.log = e :: s.log ∧ e.call? = some t ∧
      (∀ r, e ≠ .ready t r true) ∧ e.releasesCall t = false ∧
      (c.phase.committed = false → e = .ready t c.reservationId false)) :
    CommitInv s' := by
  have hcall : ∀ t' c'', s'.calls t' = some c'' →
      (t' = t ∧ c'' = c') ∨ (t' ≠ t ∧ s.calls t' = some c'') := fun t' c'' h =>
    update_eq_some (hcalls ▸ h)
  have hready : ∀ t' r, (Event.ready t' r true ∈ s'.log ↔ .ready t' r true ∈ s.log) :=
    fun t' r => by
    rcases hlog with hlog | ⟨e, hlog, he, hne, -⟩ <;> rw [hlog]
    simp only [List.mem_cons, or_iff_right_iff_imp]
    rintro rfl
    cases he
    exact absurd rfl (hne r)
  have hsome : (s'.calls t).isSome := by simp [hcalls]
  refine ⟨fun r h => ?_, fun e h t' het => ?_, fun t₁ t₂ r h₁ h₂ => ?_, fun t' r h => ?_,
    fun t' c'' hc'' hcom'' => ?_, fun t' c'' hc'' hcom'' e h het => ?_,
    fun t' c'' hc'' hcom'' => ?_, fun r h => ?_, fun r => ?_, fun t' c'' hc'' => ?_⟩
  · rw [hstore]; exact hi.fresh r (hstore ▸ h)
  · rw [hcalls, Function.update_apply]
    split_ifs with ht
    · rfl
    · rcases hlog with hlog | ⟨e', hlog, he', -⟩ <;> rw [hlog] at h
      · exact hi.call_isSome e h t' het
      · rcases List.mem_cons.1 h with rfl | h
        · exact absurd (Option.some.inj (he'.symm.trans het)) (Ne.symm ht)
        · exact hi.call_isSome e h t' het
  · exact hi.ready_unique t₁ t₂ r ((hready _ _).1 h₁) ((hready _ _).1 h₂)
  · obtain ⟨c'', hc'', rfl, hcom''⟩ := hi.ready_committed t' r ((hready _ _).1 h)
    rw [hcalls, Function.update_apply]
    split_ifs with ht
    · subst ht
      obtain rfl := Option.some.inj (hc.symm.trans hc'')
      exact ⟨c', rfl, hr, hcom ▸ hcom''⟩
    · exact ⟨c'', hc'', rfl, hcom''⟩
  · rcases hcall t' c'' hc'' with ⟨rfl, rfl⟩ | ⟨-, hc''⟩
    · rw [hready, hr]; exact hi.committed_ready t' c hc (hcom ▸ hcom'')
    · exact (hready _ _).2 (hi.committed_ready t' c'' hc'' hcom'')
  · rcases hlog with hlog | ⟨e', hlog, he', -, -, hpre⟩ <;> rw [hlog] at h
    · rcases hcall t' c'' hc'' with ⟨rfl, rfl⟩ | ⟨-, hc''⟩
      · rw [hr]; exact hi.uncommitted t' c hc (hcom ▸ hcom'') e h het
      · exact hi.uncommitted t' c'' hc'' hcom'' e h het
    · rcases hcall t' c'' hc'' with ⟨rfl, rfl⟩ | ⟨ht, hc''⟩
      · rw [hr]
        rcases List.mem_cons.1 h with rfl | h
        · exact hpre (hcom ▸ hcom'')
        · exact hi.uncommitted t' c hc (hcom ▸ hcom'') e h het
      · rcases List.mem_cons.1 h with rfl | h
        · exact absurd (Option.some.inj (he'.symm.trans het)) (Ne.symm ht)
        · exact hi.uncommitted t' c'' hc'' hcom'' e h het
  · rw [hstore]
    rcases hcall t' c'' hc'' with ⟨rfl, rfl⟩ | ⟨-, hc''⟩
    · rw [hr, hdone]; exact hi.committed_status t' c hc (hcom ▸ hcom'')
    · exact hi.committed_status t' c'' hc'' hcom''
  · obtain ⟨t', ht'⟩ := hi.ready_of_status r (hstore ▸ h)
    exact ⟨t', (hready _ _).2 ht'⟩
  · rw [hstore, ← hi.expire_count r, sweeperReturns, sweeperReturns]
    rcases hlog with hlog | ⟨e, hlog, he, -⟩ <;> rw [hlog]
    simp [List.countP_cons, Event.expires_eq_false he]
  · have hcnt : s'.log.countP (Event.releasesCall t') = s.log.countP (Event.releasesCall t') := by
      rcases hlog with hlog | ⟨e, hlog, he, -, hrel, -⟩ <;> rw [hlog]
      rw [List.countP_cons, if_neg]
      · rfl
      intro h
      by_cases ht : t' = t
      · subst ht; simp [hrel] at h
      · exact ht (Option.some.inj ((Event.call?_of_releasesCall h).symm.trans he))
    rw [hcnt]
    rcases hcall t' c'' hc'' with ⟨rfl, rfl⟩ | ⟨-, hc''⟩
    · rw [hdone]; exact hi.release_count t' c hc
    · exact hi.release_count t' c'' hc''

/-- `reserve_gas`: a new ACTIVE reservation at the next id, which nothing refers to yet. -/
theorem reserveGas (hi : CommitInv s) {store : Store} {sponsor : SuiAddress} {gasBudget : U64}
    {durationMs : ℕ} {coins : List GasCoin} {r : ReservationID}
    (h : s.store.reserveGasCoins s.now sponsor gasBudget durationMs coins = some (store, r)) :
    CommitInv { s with store } := by
  obtain ⟨hnext, hst⟩ := Store.statusOf_reserveGasCoins h
  have hold : ∀ r', s.store.statusOf r' ≠ none → store.statusOf r' = s.store.statusOf r' :=
    fun r' h' => by
    rw [hst, if_neg]
    rintro rfl
    exact h' (hi.fresh _ le_rfl)
  refine ⟨fun r' h' => ?_, hi.call_isSome, hi.ready_unique, hi.ready_committed,
    hi.committed_ready, hi.uncommitted, fun t c hc hcom => ?_, fun r' h' => ?_, fun r' => ?_,
    hi.release_count⟩ <;> dsimp only at *
  · rw [hnext] at h'
    rw [hst, if_neg (Nat.ne_of_gt h')]
    exact hi.fresh r' (Nat.le_of_succ_le h')
  · rw [hold _ (hi.statusOf_ne_none hc hcom)]
    exact hi.committed_status t c hc hcom
  · rw [hst] at h'
    split_ifs at h' with hr
    · rcases h' with h' | h' <;> cases h'
    · exact hi.ready_of_status r' h'
  · have := hi.expire_count r'
    rw [hst]
    by_cases hr : r' = s.store.nextId
    · subst hr
      rw [hi.fresh _ le_rfl] at this
      simpa using this
    · rwa [if_neg hr]

/-- A new call of `execute_transaction`, before its commit point. -/
theorem executeTransaction (hi : CommitInv s) {t : ℕ} {r : ReservationID}
    {txData : TransactionData} (ht : s.calls t = none) :
    CommitInv { s with calls := Function.update s.calls t (some ⟨r, txData, .start, false⟩) } := by
  have hno : ∀ e ∈ s.log, e.call? ≠ some t := fun e he het => by
    simpa [ht] using hi.call_isSome e he t het
  refine ⟨hi.fresh, fun e h t' het => ?_, hi.ready_unique, fun t' r' h => ?_,
    fun t' c hc hcom => ?_, fun t' c hc hcom e h het => ?_, fun t' c hc hcom => ?_,
    hi.ready_of_status, hi.expire_count, fun t' c hc => ?_⟩ <;> dsimp only at *
  · rw [Function.update_apply]
    split_ifs
    · rfl
    · exact hi.call_isSome e h t' het
  · obtain ⟨c, hc, hr, hcom⟩ := hi.ready_committed t' r' h
    have ht' : t' ≠ t := by rintro rfl; simp [ht] at hc
    exact ⟨c, by rw [Function.update_noteq ht', hc], hr, hcom⟩
  · rcases update_eq_some hc with ⟨-, rfl⟩ | ⟨-, hc⟩
    · cases hcom
    · exact hi.committed_ready t' c hc hcom
  · rcases update_eq_some hc with ⟨rfl, -⟩ | ⟨-, hc⟩
    · exact absurd het (hno e h)
    · exact hi.uncommitted t' c hc hcom e h het
  · rcases update_eq_some hc with ⟨-, rfl⟩ | ⟨-, hc⟩
    · cases hcom
    · exact hi.committed_status t' c hc hcom
  · rcases update_eq_some hc with ⟨rfl, rfl⟩ | ⟨-, hc⟩
    · rw [List.countP_eq_zero.2 fun e he h => hno e he (Event.call?_of_releasesCall h)]
      rfl
    · exact hi.release_count t' c hc

/-- A new event that is not a successful `ready_for_execution` leaves the committed calls
alone. -/
theorem ready_mem_cons {e : Event} {log : List Event} {t : ℕ} {r : ReservationID}
    (he : ∀ t r, e ≠ .ready t r true) : Event.ready t r true ∈ e :: log ↔ .ready t r true ∈ log :=
  ⟨fun h => (List.mem_cons.1 h).resolve_left (he t r).symm, List.mem_cons_of_mem e⟩

section Commit

variable {t : ℕ} {c' : Call} {e₀ : Event}

/-- Logging an event of call `t` while rewriting `t`'s record keeps every logged call present. -/
theorem call_isSome_cons (hi : CommitInv s) (he₀ : e₀.call? = some t) :
    ∀ e ∈ e₀ :: s.log, ∀ t', e.call? = some t' →
      (Function.update s.calls t (some c') t').isSome := fun e h t' het => by
  rw [Function.update_apply]
  split_ifs with ht
  · rfl
  · rcases List.mem_cons.1 h with rfl | h
    · exact absurd (Option.some.inj (he₀.symm.trans het)) (Ne.symm ht)
    · exact hi.call_isSome e h t' het

/-- Logging an event of call `t` as it moves past the commit point leaves the calls before the
commit point with nothing but their failed `ready_for_execution`. -/
theorem uncommitted_cons (hi : CommitInv s) (he₀ : e₀.call? = some t)
    (hcom : c'.phase.committed) :
    ∀ t' c, Function.update s.calls t (some c') t' = some c → c.phase.committed = false →
      ∀ e ∈ e₀ :: s.log, e.call? = some t' → e = .ready t' c.reservationId false := by
  intro t' c hc hcom' e h het
  rcases update_eq_some hc with ⟨-, rfl⟩ | ⟨ht, hc⟩
  · exact nomatch hcom.symm.trans hcom'
  · rcases List.mem_cons.1 h with rfl | h
    · exact absurd (Option.some.inj (he₀.symm.trans het)) (Ne.symm ht)
    · exact hi.uncommitted t' c hc hcom' e h het

end Commit

section Status

/-! A step that moves one reservation `r`, neither missing nor EXPIRED, to a state other than
EXPIRED, and keeps the next id. -/

variable {st : Store} {r : ReservationID} {status : ReservationStatus}

theorem fresh_of_status (hi : CommitInv s) (hnext : st.nextId = s.store.nextId)
    (hst : ∀ r', st.statusOf r' = if r' = r then some status else s.store.statusOf r')
    (hr : s.store.statusOf r ≠ none) : ∀ r', st.nextId ≤ r' → st.statusOf r' = none :=
  fun r' h' => by
  rw [hnext] at h'
  rw [hst, if_neg]
  · exact hi.fresh r' h'
  · rintro rfl
    exact hr (hi.fresh _ h')

theorem expire_count_cons (hi : CommitInv s) {e₀ : Event}
    (hst : ∀ r', st.statusOf r' = if r' = r then some status else s.store.statusOf r')
    (hexp : ∀ r', e₀.expires r' = false) (hstatus : status ≠ .expired)
    (hr : s.store.statusOf r ≠ some .expired) :
    ∀ r', sweeperReturns (e₀ :: s.log) r' = if st.statusOf r' = some .expired then 1 else 0 :=
  fun r' => by
  have hcnt := hi.expire_count r'
  rw [sweeperReturns, List.countP_cons_of_neg _ _ (by simp [hexp]), hst]
  by_cases h : r' = r
  · subst h
    rw [if_pos rfl, if_neg fun h => hstatus (Option.some.inj h)]
    rwa [if_neg hr] at hcnt
  · rwa [if_neg h]

end Status

/-- `ready_for_execution` succeeds: the commit point. The reservation was ACTIVE, so no call
had committed to it and the unlocker had not expired it. -/
theorem readyOk (hi : CommitInv s) {t : ℕ} {c : Call} {store : Store} (hc : s.calls t = some c)
    (hp : c.phase = .start)
    (h : s.store.readyForExecution c.sponsor c.reservationId = some store) :
    CommitInv (({ s with store }.setPhase t c .balance).emit (.ready t c.reservationId true)) := by
  obtain ⟨hact, hnext, hst⟩ := Store.statusOf_readyForExecution h
  have hnotready : ∀ t', .ready t' c.reservationId true ∉ s.log := fun t' h' => by
    rcases hi.statusOf_of_ready h' with h'' | h'' <;> rw [hact] at h'' <;> cases h''
  have hother : ∀ t' c', s.calls t' = some c' → c'.phase.committed →
      t' ≠ t ∧ c'.reservationId ≠ c.reservationId := fun t' c' hc' hcom' => by
    refine ⟨?_, fun hr => hnotready t' (hr ▸ hi.committed_ready t' c' hc' hcom')⟩
    rintro rfl
    rw [hc] at hc'
    cases hc'
    simp [hp, Phase.committed] at hcom'
  refine ⟨fresh_of_status hi hnext hst (by simp [hact]), call_isSome_cons hi rfl,
    fun t₁ t₂ r' h₁ h₂ => ?_, fun t' r' h' => ?_, fun t' c' hc' hcom => ?_,
    uncommitted_cons (s := s) hi rfl rfl, fun t' c' hc' hcom => ?_, fun r' h' => ?_,
    expire_count_cons hi hst (fun _ => rfl) nofun (by simp [hact]), fun t' c' hc' => ?_⟩ <;>
    dsimp only [State.emit_log, State.emit_store, State.emit_calls, State.setPhase_calls,
      State.setPhase_store, State.setPhase_log] at *
  · rcases List.mem_cons.1 h₁ with h₁ | h₁ <;> rcases List.mem_cons.1 h₂ with h₂ | h₂
    · cases h₁; cases h₂; rfl
    · cases h₁; exact absurd h₂ (hnotready t₂)
    · cases h₂; exact absurd h₁ (hnotready t₁)
    · exact hi.ready_unique t₁ t₂ r' h₁ h₂
  · rcases List.mem_cons.1 h' with h' | h'
    · cases h'; exact ⟨_, Function.update_same _ _ _, rfl, rfl⟩
    · obtain ⟨c', hc', hr, hcom⟩ := hi.ready_committed t' r' h'
      exact ⟨c', by rw [Function.update_noteq (hother t' c' hc' hcom).1, hc'], hr, hcom⟩
  · rcases update_eq_some hc' with ⟨rfl, rfl⟩ | ⟨-, hc'⟩
    · exact List.mem_cons_self _ _
    · exact List.mem_cons_of_mem _ (hi.committed_ready t' c' hc' hcom)
  · rcases update_eq_some hc' with ⟨rfl, rfl⟩ | ⟨-, hc'⟩
    · rw [hst, if_pos rfl]; rfl
    · rw [hst, if_neg (hother t' c' hc' hcom).2]
      exact hi.committed_status t' c' hc' hcom
  · rw [hst] at h'
    split_ifs at h' with hr
    · exact ⟨t, hr ▸ List.mem_cons_self _ _⟩
    · exact (hi.ready_of_status r' h').imp fun _ => List.mem_cons_of_mem _
  · rw [List.countP_cons_of_neg _ _ (by simp [Event.releasesCall])]
    rcases update_eq_some hc' with ⟨rfl, rfl⟩ | ⟨-, hc'⟩
    · rw [hi.release_count t' c hc, hp]; rfl
    · exact hi.release_count t' c' hc'

/-- `add_new_coins` of the committed call succeeds: its reservation becomes TERMINAL. -/
theorem releaseOk (hi : CommitInv s) {t : ℕ} {c : Call} {coins : List GasCoin}
    {response : Except ExecuteError Effects} (hc : s.calls t = some c)
    (hp : c.phase = .release coins response) :
    CommitInv (({ s with store := (s.store.addNewCoins coins).markTerminal c.reservationId
      }.setPhase t c (.done response)).emit (.addNewCoins (.call t) coins true)) := by
  have hcom : c.phase.committed := by rw [hp]; rfl
  have hinflight : s.store.statusOf c.reservationId = some .inFlight := by
    simpa [hp, Phase.isDone] using hi.committed_status t c hc hcom
  have hready := hi.committed_ready t c hc hcom
  have hst : ∀ r', ((s.store.addNewCoins coins).markTerminal c.reservationId).statusOf r' =
      if r' = c.reservationId then some .terminal else s.store.statusOf r' := fun r' => by
    rw [Store.statusOf_markTerminal, Store.statusOf_addNewCoins]
    simp [hinflight]
  have hother : ∀ t' c', s.calls t' = some c' → c'.phase.committed → t' ≠ t →
      c'.reservationId ≠ c.reservationId := fun t' c' hc' hcom' ht hr =>
    ht (hi.ready_unique _ _ _ (hr ▸ hi.committed_ready t' c' hc' hcom') hready)
  have hmem : ∀ t' r', Event.ready t' r' true ∈ .addNewCoins (.call t) coins true :: s.log ↔
      .ready t' r' true ∈ s.log := fun _ _ => ready_mem_cons fun _ _ h => by cases h
  refine ⟨fresh_of_status hi rfl hst (by simp [hinflight]), call_isSome_cons hi rfl,
    fun t₁ t₂ r' h₁ h₂ => ?_, fun t' r' h' => ?_, fun t' c' hc' hcom' => ?_,
    uncommitted_cons (s := s) hi rfl rfl, fun t' c' hc' hcom' => ?_, fun r' h' => ?_,
    expire_count_cons hi hst (fun _ => rfl) nofun (by simp [hinflight]), fun t' c' hc' => ?_⟩ <;>
    dsimp only [State.emit_log, State.emit_store, State.emit_calls, State.setPhase_calls,
      State.setPhase_store, State.setPhase_log] at *
  · exact hi.ready_unique t₁ t₂ r' ((hmem _ _).1 h₁) ((hmem _ _).1 h₂)
  · obtain ⟨c', hc', hr, hcom'⟩ := hi.ready_committed t' r' ((hmem _ _).1 h')
    rw [Function.update_apply]
    split_ifs with ht
    · subst ht
      rw [hc] at hc'
      cases hc'
      exact ⟨_, rfl, hr, rfl⟩
    · exact ⟨c', hc', hr, hcom'⟩
  · rcases update_eq_some hc' with ⟨rfl, rfl⟩ | ⟨-, hc'⟩
    · exact (hmem _ _).2 hready
    · exact (hmem _ _).2 (hi.committed_ready t' c' hc' hcom')
  · rcases update_eq_some hc' with ⟨rfl, rfl⟩ | ⟨ht, hc'⟩
    · rw [hst, if_pos rfl]; rfl
    · rw [hst, if_neg (hother t' c' hc' hcom' ht)]
      exact hi.committed_status t' c' hc' hcom'
  · rw [hst] at h'
    split_ifs at h' with hr
    · exact ⟨t, (hmem _ _).2 (hr ▸ hready)⟩
    · exact (hi.ready_of_status r' h').imp fun _ => (hmem _ _).2
  · rcases update_eq_some hc' with ⟨rfl, rfl⟩ | ⟨ht, hc'⟩
    · rw [List.countP_cons_of_pos _ _ (by simp [Event.releasesCall]), hi.release_count t' c hc, hp]
      rfl
    · rw [List.countP_cons_of_neg _ _ (by simpa [Event.releasesCall] using Ne.symm ht)]
      exact hi.release_count t' c' hc'

/-- `expire_coins`: the due reservations, all ACTIVE, become EXPIRED. -/
theorem expire (hi : CommitInv s) (ids : List ObjectID)
    (hstore : s'.store = (s.store.expireCoins s.now).1) (hcalls : s'.calls = s.calls)
    (hlog : s'.log = .expireCoins (s.store.dueIds s.now) ids true :: s.log) : CommitInv s' := by
  have hst := Store.statusOf_expireCoins s.store s.now
  have hdue : ∀ r, (s.store.reservations r).any (Store.Reservation.isDue s.now) →
      s.store.statusOf r = some .active := fun _ => Store.statusOf_of_isDue
  have hmem : ∀ t r, Event.ready t r true ∈ s'.log ↔ .ready t r true ∈ s.log := fun _ _ => by
    rw [hlog]; exact ready_mem_cons fun _ _ h => by cases h
  have hkeep : ∀ r st, s.store.statusOf r = some st → st ≠ .active →
      s'.store.statusOf r = some st := fun r st h hne => by
    rw [hstore, hst, if_neg]
    · exact h
    · intro hd; rw [hdue r hd] at h; cases h; exact hne rfl
  refine ⟨fun r h => ?_, fun e h t het => ?_, fun t₁ t₂ r h₁ h₂ => ?_, fun t r h => ?_,
    fun t c hc hcom => ?_, fun t c hc hcom e h het => ?_, fun t c hc hcom => ?_,
    fun r h => ?_, fun r => ?_, fun t c hc => ?_⟩ <;> rw [hcalls] at *
  · rw [hstore, Store.expireCoins_nextId] at h
    rw [hstore, hst, if_neg]
    · exact hi.fresh r h
    · intro hd
      have := hdue r hd
      rw [hi.fresh r h] at this
      cases this
  · rw [hlog] at h
    rcases List.mem_cons.1 h with rfl | h
    · cases het
    · exact hi.call_isSome e h t het
  · exact hi.ready_unique t₁ t₂ r ((hmem _ _).1 h₁) ((hmem _ _).1 h₂)
  · exact hi.ready_committed t r ((hmem _ _).1 h)
  · exact (hmem _ _).2 (hi.committed_ready t c hc hcom)
  · rw [hlog] at h
    rcases List.mem_cons.1 h with rfl | h
    · cases het
    · exact hi.uncommitted t c hc hcom e h het
  · exact hkeep _ _ (hi.committed_status t c hc hcom) (by split <;> simp)
  · rw [hstore, hst] at h
    split_ifs at h
    · rcases h with h | h <;> cases h
    · exact (hi.ready_of_status r h).imp fun _ => (hmem _ _).2
  · have hcnt := hi.expire_count r
    rw [sweeperReturns, hlog, List.countP_cons, hstore, hst]
    simp only [Event.expires, decide_eq_true_eq, Store.mem_dueIds_iff hi.fresh]
    by_cases hd : (s.store.reservations r).any (Store.Reservation.isDue s.now)
    · rw [hdue r hd] at hcnt
      simp only [sweeperReturns] at hcnt
      simp [hd, hcnt]
    · simp only [hd, if_false, Bool.false_eq_true, add_zero]
      exact hcnt
  · rw [hlog, List.countP_cons_of_neg _ _ (by simp [Event.releasesCall])]
    exact hi.release_count t c hc

/-- A step of a call between two phases past the commit point, before it returns. -/
theorem of_pending (hi : CommitInv s) {t : ℕ} {c : Call} {p : Phase} (hc : s.calls t = some c)
    (hstore : s'.store = s.store)
    (hcalls : s'.calls = Function.update s.calls t (some { c with phase := p }))
    (hcom : c.phase.committed) (hdone : c.phase.isDone = false) (hp : p.committed)
    (hpd : p.isDone = false) (hlog : s'.log = s.log ∨ ∃ e, s'.log = e :: s.log ∧ e.call? = some t ∧
      (∀ r, e ≠ .ready t r true) ∧ e.releasesCall t = false) : CommitInv s' :=
  hi.of_call hc hstore hcalls rfl (hp.trans hcom.symm) (hpd.trans hdone.symm)
    (hlog.imp_right fun ⟨e, h₁, h₂, h₃, h₄⟩ =>
      ⟨e, h₁, h₂, h₃, h₄, fun h => absurd (h.symm.trans hcom) Bool.false_ne_true⟩)

/-- A committed call retries an operation: it logs an event of its own and stays at its
`.await`. -/
theorem of_retry (hi : CommitInv s) {t : ℕ} {c : Call} {e : Event} (hc : s.calls t = some c)
    (hcom : c.phase.committed) (hdone : c.phase.isDone = false) (he : e.call? = some t)
    (hready : ∀ r, e ≠ .ready t r true) (hrel : e.releasesCall t = false) :
    CommitInv (s.emit e) := by
  refine hi.of_pending hc (p := c.phase) rfl ?_ hcom hdone hcom hdone
    (.inr ⟨e, rfl, he, hready, hrel⟩)
  show s.calls = Function.update s.calls t (some c)
  rw [← hc, Function.update_eq_self]

/-- Every step of a call keeps the invariant. -/
theorem callStep (hi : CommitInv s) {cfg : Config} {t : ℕ} {c : Call}
    (hc : s.calls t = some c) (h : CallStep cfg s t c s') : CommitInv s' := by
  cases h with
  | reject e hp => exact hi.of_call hc rfl rfl rfl (by rw [hp]; rfl) (by rw [hp]; rfl) (.inl rfl)
  | readyFail hp =>
    exact hi.of_call hc rfl rfl rfl (by rw [hp]; rfl) (by rw [hp]; rfl)
      (.inr ⟨_, rfl, rfl, (fun _ h => by cases h), rfl, fun _ => rfl⟩)
  | readyOk store hp h => exact hi.readyOk hc hp h
  | balance order hp _ =>
    exact hi.of_pending hc rfl rfl (by rw [hp]; rfl) (by rw [hp]; rfl) rfl rfl (.inl rfl)
  | signOk total k hp =>
    exact hi.of_pending hc rfl rfl (by rw [hp]; rfl) (by rw [hp]; rfl) rfl rfl
      (.inr ⟨_, rfl, rfl, (fun _ h => by cases h), rfl⟩)
  | signFail total k hp =>
    exact hi.of_pending hc rfl rfl (by rw [hp]; rfl) (by rw [hp]; rfl) (by split <;> rfl)
      (by split <;> rfl) (.inr ⟨_, rfl, rfl, (fun _ h => by cases h), rfl⟩)
  | executed total n digest ledger effects hp _ | lost total n digest ledger effects hp _ =>
    exact hi.of_pending hc rfl rfl (by rw [hp]; rfl) (by rw [hp]; rfl) rfl rfl
      (.inr ⟨_, rfl, rfl, (fun _ h => by cases h), rfl⟩)
  | unexecuted total hp =>
    exact hi.of_pending hc rfl rfl (by rw [hp]; rfl) (by rw [hp]; rfl) rfl rfl
      (.inr ⟨_, rfl, rfl, (fun _ h => by cases h), rfl⟩)
  | usage total effects hp =>
    exact hi.of_pending hc rfl rfl (by rw [hp]; rfl) (by rw [hp]; rfl) rfl rfl
      (.inr ⟨_, rfl, rfl, (fun _ h => by cases h), rfl⟩)
  | latest e order hp _ =>
    exact hi.of_pending hc rfl rfl (by rw [hp]; rfl) (by rw [hp]; rfl) rfl rfl (.inl rfl)
  | releaseOk coins response hp => exact hi.releaseOk hc hp
  | lookupFail hp =>
    have ⟨hcom, hdone⟩ := Phase.committed_of_awaitsLookup hp
    exact hi.of_retry hc hcom hdone rfl (fun _ h => by cases h) rfl
  | releaseFail coins response hp =>
    exact hi.of_retry hc (by rw [hp]; rfl) (by rw [hp]; rfl) rfl (fun _ h => by cases h) rfl

/-- Every step of the coin unlocker keeps the invariant. -/
theorem sweep (hi : CommitInv s) {cfg : Config} (h : SweepStep cfg s s') : CommitInv s' := by
  cases h with
  | expireNone _ _ | expireSome _ _ => exact hi.expire _ rfl rfl rfl
  | expireFail _ | lookupFail _ _ | releaseOk _ _ | releaseFail _ _ =>
    exact hi.of_frame (fun _ => rfl) rfl rfl (.inr ⟨_, rfl, rfl, fun _ => rfl⟩)
  | lookup _ _ _ _ | wake _ | cancel _ _ => exact hi.of_frame (fun _ => rfl) rfl rfl (.inl rfl)

theorem step (hi : CommitInv s) {cfg : Config} {a : Action} (h : Step cfg s a s') :
    CommitInv s' := by
  cases h with
  | reserveGas _ _ _ _ _ _ h => exact hi.reserveGas h
  | executeTransaction _ _ _ ht => exact hi.executeTransaction ht
  | call _ _ _ _ hc _ hcall => exact hi.callStep hc hcall
  | drop _ _ hc _ => exact hi.of_call hc rfl rfl rfl rfl rfl (.inl rfl)
  | sweep _ _ hsweep => exact hi.sweep hsweep
  | containerDrop _ => exact hi.of_frame (fun _ => rfl) rfl rfl (.inr ⟨_, rfl, rfl, fun _ => rfl⟩)
  | tick _ | sync _ | settle _ _ _ _ _ _ _ _ _ =>
    exact hi.of_frame (fun _ => rfl) rfl rfl (.inl rfl)

end CommitInv

/-- The commit-point invariant holds in every run, whatever the environment allows. -/
theorem commitInv_of_reaches {cfg : Config} {env : State → Action → Bool} {pool : List GasCoin}
    {s : State} (hs : Reaches cfg env (init pool) s) : CommitInv s :=
  hs.rec_step (commitInv_init pool) fun _ _ _ hi _ h => hi.step h

end GasPool

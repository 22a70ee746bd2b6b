import GasPool.System.Commit

/-!
# What a signed transaction passed

`execute_transaction` (`gas_pool_core.rs:90-188`) checks the sponsor is one of the signer's
addresses (`gas_pool_core.rs:101-107`) and that the transaction passes
`check_transaction_validity` (`gas_pool_core.rs:108-110`) before it calls `ready_for_execution`
for the reservation it is given (`gas_pool_core.rs:117-119`), which checks the reservation is the
sponsor's. Only a call past that commit point signs (`gas_pool_core.rs:203-211`).

`CheckedInv` says every call past its commit point passed all three checks, the third against
the store it is in now: a reservation's sponsor never changes once it is made. It holds in every
run, whatever the environment allows (`checkedInv_of_reaches`), and gives the safety of the
signer on this path: every signing attempt of `execute_transaction` in a run is of a transaction
of a registered sponsor, that passes `check_transaction_validity`, for a reservation of that
sponsor (`signed_transaction_checked`).
-/

namespace GasPool

/-- The checks a call past its commit point passed: its sponsor is one of the signer's
addresses, its transaction passes `check_transaction_validity`, and its reservation is the
sponsor's. -/
structure Call.Checked (cfg : Config) (st : Store) (c : Call) : Prop where
  sponsor : cfg.signer.isValidAddress c.sponsor = true
  valid : checkTransactionValidity c.txData = .ok ()
  reservation : st.sponsorOf c.reservationId = some c.sponsor

/-- Every call past its commit point passed the checks. -/
def CheckedInv (cfg : Config) (s : State) : Prop :=
  ∀ t c, s.calls t = some c → c.phase.committed → c.Checked cfg s.store

variable {cfg : Config} {s s' : State}

/-- A step keeps the sponsor of every reservation that exists. -/
theorem Step.sponsorOf (hcom : CommitInv s) {a : Action} (h : Step cfg s a s')
    {r : ReservationID} (hr : s.store.statusOf r ≠ none) :
    s'.store.sponsorOf r = s.store.sponsorOf r := by
  cases h with
  | reserveGas _ _ _ _ _ _ hres =>
    rw [Store.sponsorOf_reserveGasCoins hres, if_neg]
    rintro rfl
    exact hr (hcom.fresh _ le_rfl)
  | call _ _ _ _ _ _ hcall => exact hcall.sponsorOf r
  | sweep _ _ hsweep => cases hsweep <;> simp
  | _ => rfl

/-- The start step of a call that reaches the commit point passed the sponsor and validity
checks, and `ready_for_execution` for a reservation of the sponsor. -/
theorem startCall_checked {t : ℕ} {c c' : Call} {o : Outcome}
    (h : startCall cfg s t c o = some s') (hc' : s'.calls t = some c')
    (hcom : c'.phase.committed) : c'.Checked cfg s'.store := by
  unfold startCall at h
  split_ifs at h with hv
  · cases h
    simp only [State.setPhase_calls, Function.update_same, Option.some.injEq] at hc'
    simp [← hc', Phase.committed] at hcom
  · split at h
    · cases h
      simp only [State.setPhase_calls, Function.update_same, Option.some.injEq] at hc'
      simp [← hc', Phase.committed] at hcom
    · split at h <;> cases h <;>
        simp only [State.emit_calls, State.setPhase_calls, Function.update_same,
          Option.some.injEq] at hc' <;> subst hc'
      · refine ⟨by simpa using hv, ‹_›, ?_⟩
        simp only [State.emit_store, State.setPhase_store]
        rw [Store.sponsorOf_readyForExecution ‹_›]
        exact Store.sponsorOf_of_readyForExecution ‹_›
      all_goals simp [Phase.committed] at hcom

/-- A step of a call from any phase but the start is from past the commit point. -/
theorem CallStep.committed {t : ℕ} {c : Call} (h : CallStep cfg s t c s')
    (hstart : c.phase ≠ .start) : c.phase.committed := by
  cases h
  case lookupFail hp => exact (Phase.committed_of_awaitsLookup hp).1
  all_goals simp_all [Phase.committed]

/-- A step of call `t` keeps it, with its reservation and transaction. -/
theorem CallStep.calls_self {t : ℕ} {c : Call} (hc : s.calls t = some c)
    (h : CallStep cfg s t c s') : ∃ p, s'.calls t = some { c with phase := p } := by
  cases h
  case releaseFail | lookupFail => exact ⟨c.phase, hc⟩
  all_goals exact ⟨_, Function.update_same _ _ _⟩

/-- The checks read only a call's reservation and transaction. -/
theorem Call.Checked.with {st : Store} {c : Call} (h : c.Checked cfg st) (p : Phase)
    (dropped : Bool) : ({ c with phase := p, dropped } : Call).Checked cfg st :=
  ⟨h.sponsor, h.valid, h.reservation⟩

theorem checkedInv_init (pool : List GasCoin) : CheckedInv cfg (init pool) :=
  fun _ _ h => nomatch h

namespace CheckedInv

theorem step (hv : CheckedInv cfg s) (hcom : CommitInv s) {a : Action}
    (h : step cfg s a = some s') : CheckedInv cfg s' := by
  have hS := Step.of_step h
  have hkeep : ∀ c : Call, c.Checked cfg s.store → c.Checked cfg s'.store := fun c hc =>
    { hc with
      reservation :=
        (hS.sponsorOf hcom (Store.sponsorOf_ne_none.1 (by simp [hc.reservation]))).trans
          hc.reservation }
  intro t c' hc' hcom'
  cases hS with
  | call t₀ o c _ hc _ hcall =>
    by_cases ht : t = t₀
    · subst ht
      by_cases hstart : c.phase = .start
      · exact startCall_checked (startCall_of_step h hc hstart) hc' hcom'
      · obtain ⟨p, hp⟩ := hcall.calls_self hc
        rw [hp] at hc'
        cases hc'
        exact (hkeep c (hv t c hc (hcall.committed hstart))).with p c.dropped
    · rw [hcall.calls_ne ht] at hc'
      exact hkeep c' (hv t c' hc' hcom')
  | executeTransaction t₀ r txData _ =>
    by_cases ht : t = t₀
    · subst ht
      simp at hc'
      simp [← hc', Phase.committed] at hcom'
    · exact hkeep c' (hv t c' ((Function.update_noteq ht _ _).symm.trans hc') hcom')
  | drop t₀ c hc _ =>
    by_cases ht : t = t₀
    · subst ht
      simp at hc'
      subst hc'
      exact (hkeep c (hv t c hc hcom')).with c.phase true
    · exact hkeep c' (hv t c' ((Function.update_noteq ht _ _).symm.trans hc') hcom')
  | sweep _ _ hsweep => exact hkeep c' (hv t c' (by cases hsweep <;> exact hc') hcom')
  | _ => exact hkeep c' (hv t c' hc' hcom')

end CheckedInv

/-- Every call past its commit point passed the checks, in every run, whatever the environment
allows. -/
theorem checkedInv_of_reaches {env : State → Action → Bool} {pool : List GasCoin}
    (hs : Reaches cfg env (init pool) s) : CheckedInv cfg s := by
  have : CommitInv s ∧ CheckedInv cfg s :=
    hs.rec_inv (P := fun s => CommitInv s ∧ CheckedInv cfg s)
      ⟨commitInv_init pool, checkedInv_init pool⟩
      fun _ _ _ ⟨hcom, hv⟩ _ h => ⟨hcom.step (.of_step h), hv.step hcom h⟩
  exact this.2

/-- The safety of the signer: every signing attempt of `execute_transaction` in a run, whatever
the environment allows, is of a call whose sponsor is one of the signer's addresses, whose
transaction passes `check_transaction_validity`, and whose reservation is that sponsor's. -/
theorem signed_transaction_checked {env : State → Action → Bool} {pool : List GasCoin}
    (hs : Reaches cfg env (init pool) s) {t : ℕ} {ok : Bool} (hsign : Event.sign t ok ∈ s.log) :
    ∃ c, s.calls t = some c ∧ cfg.signer.isValidAddress c.sponsor = true ∧
      checkTransactionValidity c.txData = .ok () ∧
      s.store.sponsorOf c.reservationId = some c.sponsor := by
  have hcom := commitInv_of_reaches hs
  obtain ⟨c, hc⟩ := Option.isSome_iff_exists.1 (hcom.call_isSome _ hsign t rfl)
  have hc₀ : c.phase.committed := by
    by_contra h
    cases hcom.uncommitted t c hc (by simpa using h) _ hsign rfl
  have hchk := checkedInv_of_reaches hs t c hc hc₀
  exact ⟨c, hc, hchk.sponsor, hchk.valid, hchk.reservation⟩

/-- A run of the one-coin pool in which a call commits to the coin's reservation, reads the
balance and signs. -/
def signedState : State :=
  runState (cfgOne .upToDate) anyAction (init onePool)
    [.reserveGas none 5 1000 onePool,
      .executeTransaction 0 0 ⟨.programmableTransaction [], ⟨[(1, 1, 0)], 0⟩⟩, .run 0 .ok,
      .run 0 (.read [0]), .run 0 .ok]

theorem signed_transaction_checked_signedState :
    Reaches (cfgOne .upToDate) anyAction (init onePool) signedState ∧
      Event.sign 0 true ∈ signedState.log ∧
      ∃ c, signedState.calls 0 = some c ∧
        (cfgOne .upToDate).signer.isValidAddress c.sponsor = true ∧
        checkTransactionValidity c.txData = .ok () ∧
        signedState.store.sponsorOf c.reservationId = some c.sponsor :=
  have hs : Reaches (cfgOne .upToDate) anyAction (init onePool) signedState :=
    reaches_runState _ (by decide)
  have hsign : Event.sign 0 true ∈ signedState.log := by decide
  ⟨hs, hsign, signed_transaction_checked hs hsign⟩

end GasPool

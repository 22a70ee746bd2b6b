import GasPool.System.Steps

/-!
# Stopping the coin unlocker

`GasPoolContainer::drop` (`gas_pool_core.rs:392-396`) sends the cancellation and returns; it
does not wait for the task. The task looks at the cancellation only in the `select!` that ends
each iteration (`gas_pool_core.rs:338-344`), where it races the one-second sleep: the task stops
at iteration boundaries (spec, section 5). So the iteration under way when `drop` returns runs
to its end, with its `expire_coins` and `add_new_coins`; and a task already waiting in the
`select!` when the cancellation arrives may see its sleep end at the same poll and run one more
iteration.

`coin_unlocker_after_drop`: in every run, after `drop` the task makes at most one `expire_coins`
call and at most one successful `add_new_coins` (besides the failed attempts the release
retries); once it has released coins after `drop` it has exited; and once exited it makes no
store call. `coin_unlocker_adds_after_drop` is a run where the task returns expired coins to
the store after `drop` has returned.
-/

namespace GasPool

/-- The events since `GasPoolContainer::drop`, newest first; none before it. -/
def afterContainerDrop : List Event → List Event
  | [] => []
  | e :: log =>
    if e = .containerDrop then []
    else if .containerDrop ∈ log then e :: afterContainerDrop log else []

/-- An `expire_coins` call. -/
def Event.isExpireCoins : Event → Bool
  | .expireCoins _ _ _ => true
  | _ => false

/-- A successful `add_new_coins` of the unlocker. -/
def Event.isSweeperRelease : Event → Bool
  | .addNewCoins .sweeper _ true => true
  | _ => false

/-- A store call of the unlocker. -/
def Event.isSweeperCall : Event → Bool
  | .expireCoins _ _ _ | .addNewCoins .sweeper _ _ => true
  | _ => false

/-- The unlocker's `expire_coins` calls since `drop`. -/
def expiresAfterDrop (log : List Event) : ℕ := (afterContainerDrop log).countP Event.isExpireCoins

/-- The unlocker's successful `add_new_coins` since `drop`. -/
def releasesAfterDrop (log : List Event) : ℕ :=
  (afterContainerDrop log).countP Event.isSweeperRelease

/-- The unlocker's store calls, newest first. -/
def sweeperCalls (s : State) : List Event := s.log.filter Event.isSweeperCall

theorem afterContainerDrop_of_not_mem {log : List Event} (h : .containerDrop ∉ log) :
    afterContainerDrop log = [] := by
  cases log with
  | nil => rfl
  | cons e log =>
    simp only [List.mem_cons, not_or] at h
    simp [afterContainerDrop, Ne.symm h.1, h.2]

theorem afterContainerDrop_cons {e : Event} {log : List Event} (he : e ≠ .containerDrop)
    (h : .containerDrop ∈ log) : afterContainerDrop (e :: log) = e :: afterContainerDrop log := by
  simp [afterContainerDrop, he, h]

theorem expiresAfterDrop_cons {e : Event} {log : List Event} (he : e ≠ .containerDrop)
    (h : .containerDrop ∈ log) :
    expiresAfterDrop (e :: log) = expiresAfterDrop log + if e.isExpireCoins then 1 else 0 := by
  simp [expiresAfterDrop, afterContainerDrop_cons he h, List.countP_cons]

theorem releasesAfterDrop_cons {e : Event} {log : List Event} (he : e ≠ .containerDrop)
    (h : .containerDrop ∈ log) :
    releasesAfterDrop (e :: log) = releasesAfterDrop log + if e.isSweeperRelease then 1 else 0 := by
  simp [releasesAfterDrop, afterContainerDrop_cons he h, List.countP_cons]

/-- The most `expire_coins` calls and successful releases the unlocker can have made since
`drop`, by where it waits. -/
def Sweeper.afterDropBound : Sweeper → ℕ × ℕ
  | .top | .select => (0, 0)
  | .expired _ | .release _ => (1, 0)
  | .exited => (1, 1)

/-- Since `drop`, the unlocker's store calls are within the bound of where it waits; it exits
only after a cancellation. -/
structure ShutdownInv (s : State) : Prop where
  exited_sent : s.sweeper = .exited → s.cancelSent = true
  not_sent : s.cancelSent = false → Event.containerDrop ∉ s.log
  sent : s.cancelSent = true → Event.containerDrop ∈ s.log ∧
    expiresAfterDrop s.log ≤ s.sweeper.afterDropBound.1 ∧
    releasesAfterDrop s.log ≤ s.sweeper.afterDropBound.2

theorem shutdownInv_init (pool : List GasCoin) : ShutdownInv (init pool) where
  exited_sent h := nomatch h
  not_sent _ := List.not_mem_nil _
  sent h := nomatch h

/-- A step that keeps the unlocker's bound and the cancellation, does not make it exit, and
logs at most an event that is neither `drop` nor a store call of the unlocker, keeps the
invariant. -/
theorem ShutdownInv.of_frame {s s' : State} (hi : ShutdownInv s)
    (hsw : s'.sweeper = .exited → s.sweeper = .exited)
    (hb : s'.sweeper.afterDropBound = s.sweeper.afterDropBound) (hc : s'.cancelSent = s.cancelSent)
    (hlog : s'.log = s.log ∨ ∃ e, e ≠ .containerDrop ∧ e.isExpireCoins = false ∧
      e.isSweeperRelease = false ∧ s'.log = e :: s.log) : ShutdownInv s' := by
  refine ⟨fun h => hc ▸ hi.exited_sent (hsw h), fun h => ?_, fun h => ?_⟩
  · rcases hlog with hlog | ⟨e, hne, -, -, hlog⟩ <;> rw [hlog]
    · exact hi.not_sent (hc ▸ h)
    · exact List.not_mem_cons_of_ne_of_not_mem (Ne.symm hne) (hi.not_sent (hc ▸ h))
  · obtain ⟨hmem, hexp, hrel⟩ := hi.sent (hc ▸ h)
    rw [hb]
    rcases hlog with hlog | ⟨e, hne, he, hr, hlog⟩ <;> rw [hlog]
    · exact ⟨hmem, hexp, hrel⟩
    · rw [expiresAfterDrop_cons hne hmem, releasesAfterDrop_cons hne hmem, he, hr]
      exact ⟨List.mem_cons_of_mem _ hmem, hexp, hrel⟩

/-- The events of a call are not the unlocker's. -/
theorem of_call?_eq_some {e : Event} {t : ℕ} (h : e.call? = some t) :
    e ≠ .containerDrop ∧ e.isExpireCoins = false ∧ e.isSweeperRelease = false := by
  rcases e with _ | _ | _ | _ | ⟨_ | _, _, _⟩ | _ | _ <;>
    simp_all [Event.call?, Event.isExpireCoins, Event.isSweeperRelease]

/-- An unlocker step that logs `e` and moves to `w` keeps the invariant when its bound covers
the call. -/
theorem ShutdownInv.of_sweep {s : State} {e : Event} {w : Sweeper} (hi : ShutdownInv s)
    (hne : e ≠ .containerDrop) (hsw : w = .exited → s.cancelSent = true)
    (hexp : s.cancelSent = true →
      s.sweeper.afterDropBound.1 + (if e.isExpireCoins then 1 else 0) ≤ w.afterDropBound.1)
    (hrel : s.cancelSent = true →
      s.sweeper.afterDropBound.2 + (if e.isSweeperRelease then 1 else 0) ≤ w.afterDropBound.2)
    {s' : State} (hs' : s'.sweeper = w) (hc : s'.cancelSent = s.cancelSent)
    (hlog : s'.log = e :: s.log) : ShutdownInv s' := by
  refine ⟨fun h => hc ▸ hsw (hs' ▸ h), fun h => ?_, fun h => ?_⟩
  · rw [hlog]
    exact List.not_mem_cons_of_ne_of_not_mem (Ne.symm hne) (hi.not_sent (hc ▸ h))
  · obtain ⟨hmem, he, hr⟩ := hi.sent (hc ▸ h)
    rw [hlog, hs', expiresAfterDrop_cons hne hmem, releasesAfterDrop_cons hne hmem]
    exact ⟨List.mem_cons_of_mem _ hmem, (Nat.add_le_add_right he _).trans (hexp (hc ▸ h)),
      (Nat.add_le_add_right hr _).trans (hrel (hc ▸ h))⟩

/-- Each step of the unlocker stays within the bound of where it goes. -/
theorem ShutdownInv.sweep {cfg : Config} {s s' : State} (hi : ShutdownInv s)
    (h : SweepStep cfg s s') : ShutdownInv s' := by
  cases h with
  | expireNone hsw _ | expireFail hsw =>
    refine hi.of_sweep (w := if s.cancelSent then .exited else .select) (by simp)
      (by split_ifs <;> simp_all) (fun hc => ?_) (fun hc => ?_) (by simp) rfl rfl <;>
      simp [hsw, hc, Sweeper.afterDropBound, Event.isExpireCoins, Event.isSweeperRelease]
  | expireSome hsw _ =>
    refine hi.of_sweep (w := .expired _) (by simp) (by simp) (fun _ => ?_) (fun _ => ?_) rfl rfl
      rfl <;> simp [hsw, Sweeper.afterDropBound, Event.isExpireCoins, Event.isSweeperRelease]
  | lookup ids order hsw _ =>
    exact hi.of_frame (fun h => nomatch h) (by rw [hsw]; rfl) rfl (.inl rfl)
  | releaseOk coins hsw =>
    refine hi.of_sweep (w := if s.cancelSent then .exited else .select) (by simp)
      (by split_ifs <;> simp_all) (fun hc => ?_) (fun hc => ?_) (by simp) rfl rfl <;>
      simp [hsw, hc, Sweeper.afterDropBound, Event.isExpireCoins, Event.isSweeperRelease]
  | releaseFail coins hsw =>
    exact hi.of_frame id rfl rfl (.inr ⟨.addNewCoins .sweeper coins false, by simp, rfl, rfl, rfl⟩)
  | lookupFail ids hsw =>
    exact hi.of_frame id rfl rfl (.inr ⟨.lookupFailed .sweeper, by simp, rfl, rfl, rfl⟩)
  | wake hsw =>
    exact hi.of_frame (fun h => nomatch h) (by rw [hsw]; rfl) rfl (.inl rfl)
  | cancel hsw hc =>
    refine ⟨fun _ => hc, fun h => by simp_all, fun _ => ?_⟩
    obtain ⟨hmem, he, hr⟩ := hi.sent hc
    rw [hsw] at he hr
    exact ⟨hmem, he.trans (Nat.zero_le _), hr.trans (Nat.zero_le _)⟩

theorem ShutdownInv.step {cfg : Config} {s s' : State} {a : Action} (hi : ShutdownInv s)
    (h : Step cfg s a s') : ShutdownInv s' := by
  cases h with
  | call t o c s' _ _ hcall =>
    obtain ⟨h1, h2, -, h3⟩ := hcall.frame
    refine hi.of_frame (h1 ▸ id) (by rw [h1]) h2 (h3.imp_right fun ⟨e, he, hlog⟩ => ?_)
    obtain ⟨hne, hexp, hrel⟩ := of_call?_eq_some he
    exact ⟨e, hne, hexp, hrel, hlog⟩
  | sweep o s' hsweep => exact hi.sweep hsweep
  | containerDrop hc =>
    refine ⟨fun _ => rfl, (fun h => nomatch h), fun _ => ⟨List.mem_cons_self _ _, ?_, ?_⟩⟩ <;>
      simp [expiresAfterDrop, releasesAfterDrop, afterContainerDrop]
  | _ => exact hi.of_frame id rfl rfl (.inl rfl)

/-- Once exited, the unlocker stays exited and the store calls logged are those it made. -/
theorem sweeperCalls_of_exited {cfg : Config} {env : State → Action → Bool} {s s' : State}
    (hs : Reaches cfg env s s') (hex : s.sweeper = .exited) :
    s'.sweeper = .exited ∧ sweeperCalls s' = sweeperCalls s := by
  refine hs.rec_step (P := fun s₁ => s₁.sweeper = .exited ∧ sweeperCalls s₁ = sweeperCalls s)
    ⟨hex, rfl⟩ fun s₁ _ s₂ ⟨hex₁, hcalls⟩ _ h => ?_
  cases h with
  | call t o c s₂ _ _ hcall =>
    obtain ⟨h1, -, -, h3⟩ := hcall.frame
    refine ⟨h1 ▸ hex₁, ?_⟩
    rcases h3 with h3 | ⟨e, he, h3⟩
    · rw [sweeperCalls, h3]
      exact hcalls
    · have : e.isSweeperCall = false := by
        rcases e with _ | _ | _ | _ | ⟨_ | _, _, _⟩ | _ | _ <;>
          simp_all [Event.call?, Event.isSweeperCall]
      rw [sweeperCalls, h3, List.filter_cons_of_neg (by simp [this])]
      exact hcalls
  | sweep o s₂ hsweep => cases hsweep <;> simp_all
  | containerDrop => simp_all [sweeperCalls, Event.isSweeperCall]
  | _ => exact ⟨hex₁, hcalls⟩

/-- After `GasPoolContainer::drop` the coin unlocker makes at most one `expire_coins` call and at
most one successful `add_new_coins`; having released coins after `drop` it has exited; and
once exited it makes no further store call. -/
theorem coin_unlocker_after_drop {cfg : Config} {env : State → Action → Bool}
    {pool : List GasCoin} {s : State} (hs : Reaches cfg env (init pool) s) :
    expiresAfterDrop s.log ≤ 1 ∧ releasesAfterDrop s.log ≤ 1 ∧
      (releasesAfterDrop s.log = 1 → s.sweeper = .exited) ∧
      (s.sweeper = .exited → ∀ s', Reaches cfg env s s' → sweeperCalls s' = sweeperCalls s) := by
  have hi := hs.rec_step (shutdownInv_init pool) fun _ _ _ hi _ h => hi.step h
  refine ⟨?_, ?_, fun h1 => ?_, fun hex s' hs' => (sweeperCalls_of_exited hs' hex).2⟩ <;>
    cases hc : s.cancelSent
  all_goals first
    | simp [expiresAfterDrop, releasesAfterDrop, afterContainerDrop_of_not_mem (hi.not_sent hc)]
      at *
    | obtain ⟨-, he, hr⟩ := hi.sent hc
      cases hsw : s.sweeper <;> simp_all [Sweeper.afterDropBound]

/-- A run of the one-coin pool: a reservation of the coin with no time to live, one unlocker
iteration that expires it and looks the coin up, then `drop`, then the release. -/
def dropState : State :=
  runState (cfgOne .upToDate) anyAction (init onePool)
    [.reserveGas none 5 0 onePool, .sweep .ok, .sweep (.read [0]), .containerDrop, .sweep .ok]

theorem coin_unlocker_after_drop_dropState :
    Reaches (cfgOne .upToDate) anyAction (init onePool) dropState ∧
      expiresAfterDrop dropState.log ≤ 1 ∧ releasesAfterDrop dropState.log ≤ 1 ∧
      (releasesAfterDrop dropState.log = 1 → dropState.sweeper = .exited) ∧
      (dropState.sweeper = .exited → ∀ s', Reaches (cfgOne .upToDate) anyAction dropState s' →
        sweeperCalls s' = sweeperCalls dropState) :=
  ⟨reaches_runState _ (by decide), coin_unlocker_after_drop (reaches_runState _ (by decide))⟩

/-- The coin unlocker expires a reservation and, after `drop` has returned, still returns its
coin to the store. -/
theorem coin_unlocker_adds_after_drop :
    Reaches (cfgOne .upToDate) anyAction (init onePool) dropState ∧
      releasesAfterDrop dropState.log = 1 :=
  ⟨reaches_runState _ (by decide), by decide⟩

end GasPool

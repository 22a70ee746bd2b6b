import GasPool.System.Steps

/-!
# How long a call runs

`execute_transaction` (`gas_pool_core.rs:90-188`) has two kinds of loop without a bound:
`release_gas_coins` retries `add_new_coins` until it succeeds (`gas_pool_core.rs:281-290`), and
`get_latest_gas_objects` retries each chunk fetch until it succeeds (`sui_client.rs:105-125`),
both in the balance read (`gas_pool_core.rs:126`) and in the failure path's lookup
(`gas_pool_core.rs:162`). Every other `.await` is passed once, except signing, which
`retry_with_max_attempts!` tries at most three times (`gas_pool_core.rs:203-211`); the
submission's own retries are inside `SuiClient::execute_transaction`, bounded by its
`max_attempts`, and make one step here.

`Phase.rank` bounds the steps a call in a phase can still take, retries aside. Every step of a
call lowers it, except a retry, which the log records (`CallStep.rank_add_le`); no other step
touches it (`Step.rank_add_le`). Summed over a run: a call takes at most eight steps plus one per
retry (`call_steps_le`), whatever the schedule, the outcomes and the other calls. A call whose
first two signing attempts fail takes eight steps besides its retries.
-/

namespace GasPool

/-- The steps a call in this phase can still take, retries aside: the
checks and `ready_for_execution`, the balance read, up to three signing attempts, the submission,
the usage update or the failure path's lookup, and the release. -/
def Phase.rank : Phase → ℕ
  | .start => 8
  | .balance => 7
  | .sign _ k => 4 + (2 - k)
  | .submit _ => 3
  | .usage _ _ | .latest _ => 2
  | .release _ _ => 1
  | .rejected _ | .done _ => 0

theorem Phase.rank_le (p : Phase) : p.rank ≤ 8 := by
  cases p <;> simp only [Phase.rank] <;> omega

/-- A retry of call `t`: a failed chunk fetch of one of its lookups, or a failed
`add_new_coins` attempt. -/
def Event.retries (t : ℕ) : Event → Bool
  | .addNewCoins (.call t') _ false | .lookupFailed (.call t') => t' == t
  | _ => false

/-- A step of call `t`. -/
def Action.runs (t : ℕ) : Action → Bool
  | .run t' _ => t' == t
  | _ => false

/-- The steps call `t` can still take, retries aside; a call not made yet can still be made. -/
def State.rank (s : State) (t : ℕ) : ℕ :=
  match s.calls t with
  | some c => c.phase.rank
  | none => 8

theorem State.rank_le (s : State) (t : ℕ) : s.rank t ≤ 8 := by
  unfold State.rank
  split
  · exact Phase.rank_le _
  · exact le_rfl

theorem State.rank_congr {s s' : State} {t : ℕ} (h : s'.calls t = s.calls t) :
    s'.rank t = s.rank t := by
  simp only [State.rank, h]

variable {cfg : Config} {s s' : State}

/-- A step logs at most one event. -/
theorem Step.log_eq {a : Action} (h : Step cfg s a s') :
    s'.log = s.log ∨ ∃ e, s'.log = e :: s.log := by
  cases h with
  | call _ _ _ _ _ _ hcall => exact hcall.frame.2.2.2.imp_right fun ⟨e, _, he⟩ => ⟨e, he⟩
  | sweep _ _ hsweep => cases hsweep <;> first | exact .inl rfl | exact .inr ⟨_, rfl⟩
  | _ => first | exact .inl rfl | exact .inr ⟨_, rfl⟩

theorem countP_log_le {p : Event → Bool} (hl : s'.log = s.log ∨ ∃ e, s'.log = e :: s.log) :
    s.log.countP p ≤ s'.log.countP p := by
  rcases hl with hl | ⟨e, hl⟩ <;> rw [hl]
  rw [List.countP_cons]
  exact Nat.le_add_right _ _

/-- Every step of call `t` lowers its rank, except a retry, which logs itself. -/
theorem CallStep.rank_add_le {t : ℕ} {c : Call} (hc : s.calls t = some c)
    (h : CallStep cfg s t c s') :
    s'.rank t + 1 + s.log.countP (Event.retries t) ≤
      c.phase.rank + s'.log.countP (Event.retries t) := by
  have hlog : s.log.countP (Event.retries t) ≤ s'.log.countP (Event.retries t) :=
    countP_log_le (h.frame.2.2.2.imp_right fun ⟨e, _, he⟩ => ⟨e, he⟩)
  cases h with
  | releaseFail _ _ _ | lookupFail _ =>
    simp only [State.rank, State.emit_calls, hc, State.emit_log, List.countP_cons,
      Event.retries, beq_self_eq_true, if_true]
    omega
  | signFail total k hp =>
    simp only [State.rank, State.emit_calls, State.setPhase_calls, Function.update_same, hp,
      State.emit_log, State.setPhase_log] at hlog ⊢
    split <;> simp only [Phase.rank] <;> omega
  | reject _ hp | readyFail hp | readyOk _ hp _ | balance _ hp _ | signOk _ _ hp
  | executed _ _ _ _ _ hp _ | lost _ _ _ _ _ hp _ | unexecuted _ hp | usage _ _ hp
  | latest _ _ hp _ | releaseOk _ _ hp =>
    simp only [State.rank, State.emit_calls, State.setPhase_calls, Function.update_same, hp,
      Phase.rank]
    omega

/-- One step of the system: call `t`'s rank falls by one per step of `t`, less its retries; no
other step raises it. -/
theorem Step.rank_add_le {a : Action} (h : Step cfg s a s') (t : ℕ) :
    s'.rank t + (if a.runs t then 1 else 0) + s.log.countP (Event.retries t) ≤
      s.rank t + s'.log.countP (Event.retries t) := by
  have hlog : s.log.countP (Event.retries t) ≤ s'.log.countP (Event.retries t) :=
    countP_log_le h.log_eq
  have hsame : s'.calls t = s.calls t → a.runs t = false →
      s'.rank t + (if a.runs t then 1 else 0) + s.log.countP (Event.retries t) ≤
        s.rank t + s'.log.countP (Event.retries t) := fun hc hr => by
    rw [State.rank_congr hc, hr, if_neg Bool.false_ne_true]
    omega
  cases h with
  | call t' o c s' hc _ hcall =>
    by_cases ht : t' = t
    · subst ht
      have := hcall.rank_add_le hc
      simp only [Action.runs, beq_self_eq_true, if_true, State.rank, hc] at this ⊢
      omega
    · exact hsame (hcall.calls_ne (Ne.symm ht)) (by simpa [Action.runs] using ht)
  | executeTransaction t' r txData hnone =>
    by_cases ht : t' = t
    · subst ht
      simp [State.rank, hnone, Action.runs, Phase.rank]
    · exact hsame (Function.update_noteq (Ne.symm ht) _ _) rfl
  | drop t' c hc _ =>
    by_cases ht : t' = t
    · subst ht
      simp [State.rank, hc, Action.runs]
    · exact hsame (Function.update_noteq (Ne.symm ht) _ _) rfl
  | sweep o s' hsweep => exact hsame (by cases hsweep <;> rfl) rfl
  | reserveGas _ _ _ _ _ _ _ | containerDrop _ | tick _ | sync _ | settle _ _ _ _ _ _ _ _ _ =>
    exact hsame rfl rfl

/-- Summed over a run of the actions `as`: the steps of call `t` and what is left of its rank
are paid for by its rank at the start and its retries. -/
theorem rank_add_le_of_run {env : State → Action → Bool} (t : ℕ) :
    ∀ {s s' : State} (as : List Action), run cfg env s as = some s' →
      s'.rank t + as.countP (Action.runs t) + s.log.countP (Event.retries t) ≤
        s.rank t + s'.log.countP (Event.retries t)
  | s, s', [], h => by cases h; simp
  | s, s', a :: as, h => by
    simp only [run] at h
    split_ifs at h
    cases hstep : step cfg s a with
    | none => simp [hstep] at h
    | some s₁ =>
      rw [hstep, Option.some_bind] at h
      have h₁ := (Step.of_step hstep).rank_add_le t
      have h₂ := rank_add_le_of_run t as h
      rw [List.countP_cons]
      omega

/-- In every run, from any state, with any environment, schedule and outcomes, call `t` takes at
most eight steps plus one per retry it makes in the run, a failed chunk fetch of one of its
lookups or a failed `add_new_coins` attempt: the retry loops of `get_latest_gas_objects` and
`release_gas_coins` are the only loops of `execute_transaction` without a bound. -/
theorem call_steps_le {env : State → Action → Bool} {as : List Action}
    (h : run cfg env s as = some s') (t : ℕ) :
    as.countP (Action.runs t) + s.log.countP (Event.retries t) ≤
      8 + s'.log.countP (Event.retries t) := by
  have := rank_add_le_of_run t as h
  have := s.rank_le t
  omega

/-- The one-coin pool: a call whose balance read fails once and is retried, whose first two
signing attempts fail, and which then signs, submits, is executed, updates the usage and
releases the new gas coin, in nine steps, one of them a retry. -/
def slowCallRun : List Action :=
  [.reserveGas none 5 1000 onePool,
    .executeTransaction 0 0 ⟨.programmableTransaction [], ⟨[(1, 1, 0)], 0⟩⟩,
    .run 0 .ok, .run 0 .fail, .run 0 (.read [0]), .run 0 .fail, .run 0 .fail, .run 0 .ok,
    .run 0 (.submit (.executed 3 7)), .run 0 .ok, .run 0 .ok]

theorem call_steps_le_slowCallRun :
    run (cfgOne .upToDate) anyAction (init onePool) slowCallRun =
        some (runState (cfgOne .upToDate) anyAction (init onePool) slowCallRun) ∧
      slowCallRun.countP (Action.runs 0) = 9 ∧
      slowCallRun.countP (Action.runs 0) + (init onePool).log.countP (Event.retries 0) ≤
        8 + (runState (cfgOne .upToDate) anyAction (init onePool) slowCallRun).log.countP
          (Event.retries 0) := by
  have h : run (cfgOne .upToDate) anyAction (init onePool) slowCallRun =
      some (runState (cfgOne .upToDate) anyAction (init onePool) slowCallRun) :=
    run_eq_some_runState (by decide)
  exact ⟨h, by decide, call_steps_le h 0⟩

end GasPool

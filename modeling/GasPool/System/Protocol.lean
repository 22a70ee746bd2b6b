import GasPool.System.Steps

/-!
# The protocol of a call

What one call of `execute_transaction` does to the world outside the pool, in order
(`gas_pool_core.rs:90-236`): `ready_for_execution` on the store (`gas_pool_core.rs:117-119`);
if it succeeds, up to three signing attempts (`retry_with_max_attempts!`,
`gas_pool_core.rs:203-211`); after a successful one, one submission to the chain
(`gas_pool_core.rs:220-223`); if the effects come back, one update of the usage cap
(`gas_pool_core.rs:230`); and after the usage update, a failed submission or the third failed
signing attempt, `add_new_coins` until it succeeds (`release_gas_coins`,
`gas_pool_core.rs:281-290`). Where the call reads the balance or looks up its payment after a
failure, any number of failed chunk fetches of `get_latest_gas_objects` may come between
(`sui_client.rs:105-125`).

`Protocol` is that sequence as an automaton over the call's logged operations, stated apart from
the phases of the model; `State.protocol` maps each call's phase to the state of the automaton it
should be in. `protocolInv_of_reaches` shows the model refines the automaton: in every run,
whatever the environment and the interleaving, the operations of each call, read by the
automaton, end in the state of its phase. `Protocol.counts` reads off how often each operation
occurs: a call updates the usage cap at most once, only after it submitted its transaction, which
it does at most once, and only after a successful signing attempt.
-/

namespace GasPool

/-- How far the operations of one call have got. -/
inductive Protocol
  /-- No operation yet; a call that failed its checks stays here. -/
  | start
  /-- `ready_for_execution` failed: the call has returned. -/
  | refused
  /-- `ready_for_execution` succeeded, then `failures` signing attempts failed. -/
  | ready (failures : ℕ)
  /-- A signing attempt succeeded. -/
  | signed
  /-- Three signing attempts failed. -/
  | gaveUp
  /-- The transaction was submitted. -/
  | submitted
  /-- The usage cap was updated. -/
  | used
  /-- `add_new_coins` succeeded after the operations that led to `before`. -/
  | released (before : Protocol)
deriving DecidableEq, Repr

namespace Protocol

/-- The states the call releases its coins from: after the usage update, after the submission
failed, after the third failed signing attempt. -/
def releasing : Protocol → Bool
  | .submitted | .used | .gaveUp => true
  | _ => false

/-- The states the call may look coins up in: before the first signing attempt, when it reads
the balance, and after the submission or the signing failed. -/
def looksUp : Protocol → Bool
  | .ready 0 | .submitted | .gaveUp => true
  | _ => false

/-- The protocol's transition on the operation `e`; `none` when it does not allow `e`. -/
def next : Protocol → Event → Option Protocol
  | .start, .ready _ _ ok => some (if ok then .ready 0 else .refused)
  | .ready _, .sign _ true => some .signed
  | .ready k, .sign _ false => some (if k + 1 < 3 then .ready (k + 1) else .gaveUp)
  | .signed, .submit _ => some .submitted
  | .submitted, .updateUsage _ => some .used
  | q, .addNewCoins _ _ ok => if q.releasing then some (if ok then .released q else q) else none
  | q, .lookupFailed _ => if q.looksUp then some q else none
  | _, _ => none

/-- The state the protocol reaches on the operations `ops`, newest first as the log keeps them;
`none` when it does not allow them. -/
def ofOps : List Event → Option Protocol
  | [] => some .start
  | e :: ops => (ofOps ops).bind (·.next e)

@[simp] theorem ofOps_nil : ofOps [] = some .start := rfl

@[simp] theorem ofOps_cons (e : Event) (ops : List Event) :
    ofOps (e :: ops) = (ofOps ops).bind (·.next e) := rfl

end Protocol

/-- The operations of call `t` in the log, newest first. -/
def callOps (log : List Event) (t : ℕ) : List Event := log.filter (·.call? == some t)

@[simp] theorem callOps_cons (e : Event) (log : List Event) (t : ℕ) :
    callOps (e :: log) t = if e.call? = some t then e :: callOps log t else callOps log t := by
  by_cases h : e.call? = some t <;> simp [callOps, List.filter_cons, h]

/-! ## The abstraction of a call's phase -/

/-- The protocol state of a call that answers `response`, before its coins are back. -/
def responseProtocol : Except ExecuteError Effects → Protocol
  | .ok _ => .used
  | .error .signingFailed => .gaveUp
  | .error _ => .submitted

@[simp] theorem releasing_responseProtocol (response : Except ExecuteError Effects) :
    (responseProtocol response).releasing := by
  rcases response with (_ | _ | _ | _ | _ | _) | _ <;> rfl

/-- The protocol state of a call in phase `p`. -/
def Phase.protocol : Phase → Protocol
  | .start => .start
  | .rejected .readyForExecutionFailed => .refused
  | .rejected _ => .start
  | .balance => .ready 0
  | .sign _ k => .ready k
  | .submit _ => .signed
  | .usage _ _ => .submitted
  | .latest e => responseProtocol (.error e)
  | .release _ response => responseProtocol response
  | .done response => .released (responseProtocol response)

/-- A call waits for a lookup only where the protocol allows one. -/
theorem Phase.looksUp_protocol {p : Phase} (h : p.awaitsLookup) : p.protocol.looksUp := by
  cases p with
  | balance => rfl
  | latest e => cases e <;> rfl
  | _ => cases h

/-- The protocol state of call `t`; a call not made yet has made no operation. -/
def State.protocol (s : State) (t : ℕ) : Protocol :=
  match s.calls t with
  | some c => c.phase.protocol
  | none => .start

theorem State.protocol_of_calls {s : State} {t : ℕ} {c : Call} (hc : s.calls t = some c) :
    s.protocol t = c.phase.protocol := by
  simp [State.protocol, hc]

/-! ## The model refines the protocol -/

/-- Every call's operations, read by the protocol, end in the state of its phase. -/
def ProtocolInv (s : State) : Prop :=
  ∀ t, Protocol.ofOps (callOps s.log t) = some (s.protocol t)

variable {cfg : Config} {s s' : State}

/-- The start step of a call: the checks fail with no operation, or `ready_for_execution` is
called. -/
theorem startCall_protocol {t : ℕ} {c : Call} {o : Outcome} (hc : s.calls t = some c)
    (hstart : c.phase = .start) (hv : ProtocolInv s) (h : startCall cfg s t c o = some s') :
    Protocol.ofOps (callOps s'.log t) = some (s'.protocol t) := by
  have hops : Protocol.ofOps (callOps s.log t) = some .start := by
    rw [hv t, State.protocol_of_calls hc, hstart]; rfl
  unfold startCall at h
  split_ifs at h
  · cases h
    simp [State.protocol, Phase.protocol, hops]
  · split at h
    · cases h
      simp [State.protocol, Phase.protocol, hops]
    · split at h <;> cases h <;> simp [State.protocol, Phase.protocol, hops, Protocol.next, Event.call?]

/-- Every other step of a call makes the operation the protocol allows in the state of its
phase. -/
theorem CallStep.protocol {t : ℕ} {c : Call} (hc : s.calls t = some c)
    (hstart : c.phase ≠ .start) (hv : ProtocolInv s) (h : CallStep cfg s t c s') :
    Protocol.ofOps (callOps s'.log t) = some (s'.protocol t) := by
  have hops := State.protocol_of_calls hc ▸ hv t
  cases h with
  | reject _ hp | readyFail hp | readyOk _ hp _ => exact absurd hp hstart
  | releaseFail _ _ hp | releaseOk _ _ hp =>
    simp [hc, State.protocol, Phase.protocol, hops, hp, Protocol.next, Event.call?]
  | lookupFail hp =>
    simp [hc, State.protocol, hops, Protocol.next, Event.call?, Phase.looksUp_protocol hp]
  | signFail total k hp =>
    rw [hp] at hops
    simp only [State.emit_log, State.setPhase_log, callOps_cons, Event.call?, if_true,
      Protocol.ofOps_cons, hops, Phase.protocol, Option.some_bind, Protocol.next, State.protocol,
      State.emit_calls, State.setPhase_calls, Function.update_same]
    split <;> rfl
  | balance _ hp _ | signOk _ _ hp | executed _ _ _ _ _ hp _ | lost _ _ _ _ _ hp _
  | unexecuted _ hp | usage _ _ hp | latest _ _ hp _ =>
    simp [State.protocol, Phase.protocol, responseProtocol, hops, hp, Protocol.next, Event.call?]

theorem protocolInv_init (pool : List GasCoin) : ProtocolInv (init pool) := fun _ => rfl

theorem ProtocolInv.step (hv : ProtocolInv s) {a : Action} (h : step cfg s a = some s') :
    ProtocolInv s' := by
  have hsame : ∀ t, s'.protocol t = s.protocol t → callOps s'.log t = callOps s.log t →
      Protocol.ofOps (callOps s'.log t) = some (s'.protocol t) := fun t hp hl => by
    rw [hp, hl]
    exact hv t
  have hS := Step.of_step h
  intro t
  cases hS with
  | call t₀ o c _ hc _ hcall =>
    by_cases ht : t = t₀
    · subst ht
      by_cases hstart : c.phase = .start
      · exact startCall_protocol hc hstart hv (startCall_of_step h hc hstart)
      · exact hcall.protocol hc hstart hv
    · refine hsame t (by simp only [State.protocol, hcall.calls_ne ht]) ?_
      rcases hcall.frame.2.2.2 with hl | ⟨e, he, hl⟩
      · rw [hl]
      · rw [hl, callOps_cons, he, if_neg (by simpa using Ne.symm ht)]
  | executeTransaction t₀ r txData hnone =>
    refine hsame t ?_ rfl
    by_cases ht : t = t₀
    · subst ht
      simp [State.protocol, hnone, Phase.protocol]
    · simp [State.protocol, Function.update_noteq ht]
  | drop t₀ c hc _ =>
    refine hsame t ?_ rfl
    by_cases ht : t = t₀
    · subst ht
      simp [State.protocol, hc]
    · simp [State.protocol, Function.update_noteq ht]
  | sweep _ _ hsweep =>
    exact hsame t (by cases hsweep <;> rfl) (by cases hsweep <;> simp [Event.call?])
  | containerDrop _ => exact hsame t rfl (by simp [Event.call?])
  | reserveGas _ _ _ _ _ _ _ | tick _ | sync _ | settle _ _ _ _ _ _ _ _ _ => exact hv t

/-- The model refines the protocol in every run, whatever the environment allows. -/
theorem protocolInv_of_reaches {env : State → Action → Bool} {pool : List GasCoin}
    (hs : Reaches cfg env (init pool) s) : ProtocolInv s :=
  hs.rec_inv (protocolInv_init pool) fun _ _ _ hv _ h => hv.step h

/-! ## What the protocol allows -/

namespace Protocol

/-- The successful signing attempts on the way to `q`. -/
def signs : Protocol → ℕ
  | .signed | .submitted | .used => 1
  | .released q => q.signs
  | _ => 0

/-- The submissions on the way to `q`. -/
def submits : Protocol → ℕ
  | .submitted | .used => 1
  | .released q => q.submits
  | _ => 0

/-- The usage updates on the way to `q`. -/
def usages : Protocol → ℕ
  | .used => 1
  | .released q => q.usages
  | _ => 0

theorem usages_le_submits_le_signs (q : Protocol) :
    q.usages ≤ q.submits ∧ q.submits ≤ q.signs ∧ q.signs ≤ 1 := by
  induction q <;> simp_all [usages, submits, signs]

/-- Every transition of the protocol, by the operation taken. -/
theorem next_eq_some {q q' : Protocol} {e : Event} (h : q.next e = some q') :
    (∃ t r ok, e = .ready t r ok ∧ q = .start ∧ q' = if ok then .ready 0 else .refused) ∨
    (∃ t k, e = .sign t true ∧ q = .ready k ∧ q' = .signed) ∨
    (∃ t k, e = .sign t false ∧ q = .ready k ∧
      q' = if k + 1 < 3 then .ready (k + 1) else .gaveUp) ∨
    (∃ t, e = .submit t ∧ q = .signed ∧ q' = .submitted) ∨
    (∃ t, e = .updateUsage t ∧ q = .submitted ∧ q' = .used) ∨
    (∃ src coins ok, e = .addNewCoins src coins ok ∧ q.releasing ∧
      q' = if ok then .released q else q) ∨
    (∃ src, e = .lookupFailed src ∧ q.looksUp ∧ q' = q) := by
  unfold next at h
  split at h
  · cases h; exact .inl ⟨_, _, _, rfl, rfl, rfl⟩
  · cases h; exact .inr <| .inl ⟨_, _, rfl, rfl, rfl⟩
  · cases h; exact .inr <| .inr <| .inl ⟨_, _, rfl, rfl, rfl⟩
  · cases h; exact .inr <| .inr <| .inr <| .inl ⟨_, rfl, rfl, rfl⟩
  · cases h; exact .inr <| .inr <| .inr <| .inr <| .inl ⟨_, rfl, rfl, rfl⟩
  · split at h
    · cases h
      exact .inr <| .inr <| .inr <| .inr <| .inr <| .inl ⟨_, _, _, rfl, ‹_›, rfl⟩
    · cases h
  · split at h
    · cases h
      exact .inr <| .inr <| .inr <| .inr <| .inr <| .inr ⟨_, rfl, ‹_›, rfl⟩
    · cases h
  · cases h

/-- A transition on an operation of call `t` adds the operation to the count it belongs to. -/
theorem counts_next {q q' : Protocol} {e : Event} {t : ℕ} (he : e.call? = some t)
    (h : q.next e = some q') :
    q'.signs = q.signs + [e].count (.sign t true) ∧
      q'.submits = q.submits + [e].count (.submit t) ∧
      q'.usages = q.usages + [e].count (.updateUsage t) := by
  rcases next_eq_some h with ⟨t', r, ok, rfl, rfl, rfl⟩ | ⟨t', k, rfl, rfl, rfl⟩ |
    ⟨t', k, rfl, rfl, rfl⟩ | ⟨t', rfl, rfl, rfl⟩ | ⟨t', rfl, rfl, rfl⟩ |
    ⟨src, coins, ok, rfl, -, rfl⟩ | ⟨src, rfl, -, rfl⟩
  · cases ok <;> simp [signs, submits, usages]
  · cases Option.some.inj he
    simp [signs, submits, usages]
  · split <;> simp [signs, submits, usages]
  · cases Option.some.inj he
    simp [signs, submits, usages]
  · cases Option.some.inj he
    simp [signs, submits, usages]
  · cases ok <;> simp [signs, submits, usages]
  · simp

/-- On operations of call `t` that the protocol allows, the successful signing attempts, the
submissions and the usage updates occur as often as the state reached says. -/
theorem counts {t : ℕ} : ∀ {ops : List Event} {q : Protocol}, (∀ e ∈ ops, e.call? = some t) →
    ofOps ops = some q →
    ops.count (.sign t true) = q.signs ∧ ops.count (.submit t) = q.submits ∧
      ops.count (.updateUsage t) = q.usages
  | [], q, _, h => by
    cases h
    simp [signs, submits, usages]
  | e :: ops, q, hops, h => by
    obtain ⟨q₀, h₀, hnext⟩ := Option.bind_eq_some.1 h
    obtain ⟨hs, hu, hg⟩ := counts (fun e he => hops e (List.mem_cons_of_mem _ he)) h₀
    obtain ⟨hs', hu', hg'⟩ := counts_next (hops e (List.mem_cons_self _ _)) hnext
    rw [← List.singleton_append, List.count_append, List.count_append, List.count_append]
    omega

end Protocol

theorem call?_of_mem_callOps {e : Event} {log : List Event} {t : ℕ} (h : e ∈ callOps log t) :
    e.call? = some t := by
  simpa [callOps] using (List.mem_filter.1 h).2

theorem count_callOps {e : Event} {t : ℕ} (he : e.call? = some t) (log : List Event) :
    (callOps log t).count e = log.count e :=
  List.count_filter (by simp [he])

/-- In every run, whatever the environment allows, each call updates the usage cap at most once
and only if it submitted its transaction, which it does at most once and only if a signing
attempt succeeded, which happens at most once. -/
theorem usage_le_submit_le_sign {env : State → Action → Bool} {pool : List GasCoin}
    (hs : Reaches cfg env (init pool) s) (t : ℕ) :
    s.log.count (.updateUsage t) ≤ s.log.count (.submit t) ∧
      s.log.count (.submit t) ≤ s.log.count (.sign t true) ∧ s.log.count (.sign t true) ≤ 1 := by
  obtain ⟨hsign, hsubmit, husage⟩ :=
    Protocol.counts (fun _ => call?_of_mem_callOps) (protocolInv_of_reaches hs t)
  rw [← count_callOps (e := .sign t true) rfl, ← count_callOps (e := .submit t) rfl,
    ← count_callOps (e := .updateUsage t) rfl, hsign, hsubmit, husage]
  exact (s.protocol t).usages_le_submits_le_signs

/-- A run of the one-coin pool in which a call commits, reads the balance, signs, is executed,
updates the usage cap and releases the new gas coin. -/
def releasedState : State :=
  runState (cfgOne .upToDate) anyAction (init onePool)
    [.reserveGas none 5 1000 onePool,
      .executeTransaction 0 0 ⟨.programmableTransaction [], ⟨[(1, 1, 0)], 0⟩⟩, .run 0 .ok,
      .run 0 (.read [0]), .run 0 .ok, .run 0 (.submit (.executed 3 7)), .run 0 .ok, .run 0 .ok]

theorem usage_le_submit_le_sign_releasedState :
    Reaches (cfgOne .upToDate) anyAction (init onePool) releasedState ∧
      releasedState.log.count (.updateUsage 0) = 1 ∧
      (releasedState.log.count (.updateUsage 0) ≤ releasedState.log.count (.submit 0) ∧
        releasedState.log.count (.submit 0) ≤ releasedState.log.count (.sign 0 true) ∧
        releasedState.log.count (.sign 0 true) ≤ 1) :=
  have hs : Reaches (cfgOne .upToDate) anyAction (init onePool) releasedState :=
    reaches_runState _ (by decide)
  ⟨hs, by decide, usage_le_submit_le_sign hs 0⟩

end GasPool

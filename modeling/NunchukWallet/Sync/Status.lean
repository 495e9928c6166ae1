import NunchukWallet.Basic

/-!
# The connection status of `ElectrumSynchronizer`

`status_` is written by `Run()`, by the task `Run()` posts to the worker and by the destructor,
each write under `status_mutex_`. A state holds `status_` and the posted tasks still to run,
each at the step it has reached; an `Event` is one step of one of them, and any interleaving of
events is a run.

* `step_keeps_stopped`        every step except a client construction that throws keeps STOPPED,
                              and `syncRun_keeps_stopped` every run without one;
* `stop_then_failed_connect`  a Run task whose client construction throws after the destructor's
                              stop step sets `status_` from STOPPED back to UNINITIALIZED.
-/

namespace Nunchuk

/-- `Synchronizer::Status` -/
inductive SyncStatus where
  | uninitialized
  | connecting
  | syncing
  | ready
  | stopped
deriving DecidableEq, Repr

/-- the step a task posted by `Run()` runs next -/
inductive RunPhase where
  /-- `client_ = new ElectrumClient(...)` -/
  | construct
  /-- `if (status_ != CONNECTING) return; status_ = SYNCING;` -/
  | toSyncing
  /-- `BlockchainSync(...)`, exceptions swallowed -/
  | sync
  /-- `if (status_ != SYNCING) return; status_ = READY;` -/
  | toReady
deriving DecidableEq, Repr

structure SyncState where
  status : SyncStatus
  tasks : List RunPhase
deriving DecidableEq, Repr

/-- the state after construction, before the constructor calls `Run()` -/
def SyncState.init : SyncState := ⟨.uninitialized, []⟩

inductive SyncEvent where
  /-- `Run()`, from the constructor or from the reconnect callback -/
  | run
  /-- the client construction of task `i`, succeeding or throwing -/
  | construct (i : Nat) (ok : Bool)
  | toSyncing (i : Nat)
  | sync (i : Nat)
  | toReady (i : Nat)
  /-- the destructor: `status_ = STOPPED` -/
  | stop
deriving DecidableEq, Repr

/-- task `i` moves to `next`, or ends when `next` is `none` -/
def advanceTask (tasks : List RunPhase) (i : Nat) : Option RunPhase → List RunPhase
  | some ph => tasks.set i ph
  | none => tasks.eraseIdx i

/-- one step; `none` when the event's task is not at that step -/
def syncStep (s : SyncState) : SyncEvent → Option SyncState
  | .run =>
    if s.status = .stopped then some s
    else some ⟨.connecting, s.tasks ++ [.construct]⟩
  | .construct i ok =>
    if s.tasks[i]? = some .construct then
      if ok then some ⟨s.status, advanceTask s.tasks i (some .toSyncing)⟩
      else some ⟨.uninitialized, advanceTask s.tasks i none⟩
    else none
  | .toSyncing i =>
    if s.tasks[i]? = some .toSyncing then
      if s.status ≠ .connecting then some ⟨s.status, advanceTask s.tasks i none⟩
      else some ⟨.syncing, advanceTask s.tasks i (some .sync)⟩
    else none
  | .sync i =>
    if s.tasks[i]? = some .sync then some ⟨s.status, advanceTask s.tasks i (some .toReady)⟩
    else none
  | .toReady i =>
    if s.tasks[i]? = some .toReady then
      if s.status ≠ .syncing then some ⟨s.status, advanceTask s.tasks i none⟩
      else some ⟨.ready, advanceTask s.tasks i none⟩
    else none
  | .stop => some ⟨.stopped, s.tasks⟩

/-- an interleaving of events; `none` when one of them is not enabled -/
def syncRun (s : SyncState) : List SyncEvent → Option SyncState
  | [] => some s
  | e :: es => (syncStep s e).bind fun s' => syncRun s' es

theorem syncRun_cons (s : SyncState) (e : SyncEvent) (es : List SyncEvent) :
    syncRun s (e :: es) = (syncStep s e).bind fun s' => syncRun s' es := rfl

/-- one step: the new status, from the old status and the event -/
theorem syncStep_status {s s' : SyncState} {e : SyncEvent} (h : syncStep s e = some s') :
    (e = .run ∧ (s.status = .stopped ∧ s'.status = .stopped ∨
        s.status ≠ .stopped ∧ s'.status = .connecting)) ∨
    (∃ i, e = .construct i false ∧ s'.status = .uninitialized) ∨
    (∃ i, e = .toSyncing i ∧ s.status = .connecting ∧ s'.status = .syncing) ∨
    (∃ i, e = .toReady i ∧ s.status = .syncing ∧ s'.status = .ready) ∨
    (e = .stop ∧ s'.status = .stopped) ∨
    s'.status = s.status := by
  cases e with
  | run =>
    simp only [syncStep] at h
    split at h <;> cases h <;> simp_all
  | construct i ok =>
    simp only [syncStep] at h
    split at h
    · cases ok <;> simp at h <;> subst h <;> simp
    · cases h
  | toSyncing i =>
    simp only [syncStep] at h
    split at h
    · split at h <;> cases h <;> simp_all
    · cases h
  | sync i =>
    simp only [syncStep] at h
    split at h
    · cases h; simp
    · cases h
  | toReady i =>
    simp only [syncStep] at h
    split at h
    · split at h <;> cases h <;> simp_all
    · cases h
  | stop => cases h; simp

/-- every step other than a throwing client construction keeps STOPPED -/
theorem step_keeps_stopped {s s' : SyncState} {e : SyncEvent} (h : syncStep s e = some s')
    (hs : s.status = .stopped) (he : ∀ i, e ≠ .construct i false) : s'.status = .stopped := by
  rcases syncStep_status h with ⟨-, ⟨-, h'⟩ | ⟨h', -⟩⟩ | ⟨i, rfl, -⟩ | ⟨_, -, h', -⟩ |
    ⟨_, -, h', -⟩ | ⟨-, h'⟩ | h'
  · exact h'
  · exact absurd hs h'
  · exact absurd rfl (he i)
  · rw [hs] at h'; cases h'
  · rw [hs] at h'; cases h'
  · exact h'
  · rw [h', hs]

/-- a run from STOPPED in which no client construction throws stays STOPPED -/
theorem syncRun_keeps_stopped {s s' : SyncState} {es : List SyncEvent}
    (h : syncRun s es = some s') (hs : s.status = .stopped)
    (he : ∀ i, SyncEvent.construct i false ∉ es) : s'.status = .stopped := by
  induction es generalizing s with
  | nil => cases h; exact hs
  | cons e es ih =>
    obtain ⟨s₁, h₁, h⟩ := Option.bind_eq_some.mp (syncRun_cons s e es ▸ h)
    exact ih h (step_keeps_stopped h₁ hs fun i hi => he i (hi ▸ List.mem_cons_self _ _))
      fun i hi => he i (List.mem_cons_of_mem _ hi)

/-- after the destructor's stop, a task whose client construction succeeds gives up at its
status check -/
theorem stopped_task_gives_up :
    syncRun ⟨.stopped, [.construct]⟩ [.construct 0 true, .toSyncing 0] = some ⟨.stopped, []⟩ ∧
    (⟨.stopped, [.construct]⟩ : SyncState).status = .stopped ∧
    (∀ i, SyncEvent.construct i false ∉ [SyncEvent.construct 0 true, .toSyncing 0]) ∧
    (⟨.stopped, []⟩ : SyncState).status = .stopped :=
  ⟨rfl, rfl, fun _ => by simp, @syncRun_keeps_stopped ⟨.stopped, [.construct]⟩ ⟨.stopped, []⟩
    [.construct 0 true, .toSyncing 0] rfl rfl fun _ => by simp⟩

/-- the constructor's `Run()`, the destructor's stop, then the worker's client construction
throwing: STOPPED is overwritten by UNINITIALIZED -/
theorem stop_then_failed_connect :
    syncRun SyncState.init [.run, .stop] = some ⟨.stopped, [.construct]⟩ ∧
    syncRun SyncState.init [.run, .stop, .construct 0 false] = some ⟨.uninitialized, []⟩ := by
  decide

end Nunchuk

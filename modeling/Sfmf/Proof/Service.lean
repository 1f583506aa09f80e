import Sfmf.Spec.Upgrade

/-!
# The task queue of the upgrade service

The deploy queue is driven by an idle callback, the watch on a child and a timer.
Each of them starts the next one, and a call of `Start` the first.

* `QueueOK`: at most one of these is pending, none while the service does not run,
  and a child runs the current task.
* `World.UpStep`, `World.ExitStep`: what an event does to a process in its main loop
  and in its cleanup.
* `step_queueOK`, `wAt_queueOK`: the queue is all right after every event, and in
  every state of a run.
* `status_survived_iff`: no event ends the process for want of a current task,
  except for a `Progress` signal that comes when no task is current.
* `status_kills`: such a signal.
-/

namespace Sfmf

/-! ## One event and the queue -/

/-- The number of callbacks, children and timers that will drive the deploy queue on. -/
def UpgradeFactorySnapshot.pending (u : UpgradeFactorySnapshot) : ℕ :=
  u.nextEntries + u.children.length + u.delayedFinishes

/-- **At most one continuation is pending**, none while the service does not run,
and a child runs the current task. -/
structure QueueOK (u : UpgradeFactorySnapshot) : Prop where
  tasks : u.deployQueue.tasks = gDeployTasks
  cleanup : u.cleanupQueue.tasks = gCleanupTasks
  current : -1 ≤ u.deployQueue.current ∧ u.deployQueue.current ≤ 7
  one : u.pending ≤ 1
  idle : u.running = false → u.pending = 0
  child : ∀ c ∈ u.children, 0 ≤ u.deployQueue.current ∧
    (gDeployTasks[u.deployQueue.current.toNat]?).bind DeployTask.cmd = some c
  fresh : u.running = false → u.deployQueue.finished = false → u.deployQueue.current = -1
  done : u.delayedFinishes ≠ 0 → u.deployQueue.finished = true

theorem queueOK_init : QueueOK gUfs := by
  constructor <;> simp [gUfs, gDeployQueue, gCleanupQueue, UpgradeFactorySnapshot.pending]

/-- The invariant does not see the status and the idle timer. -/
theorem QueueOK.congr {u u' : UpgradeFactorySnapshot} (h : QueueOK u)
    (hu : u' = { u with status := u'.status, idleTimer := u'.idleTimer }) : QueueOK u' := by
  rw [hu]
  exact ⟨h.tasks, h.cleanup, h.current, h.one, h.idle, h.child, h.fresh, h.done⟩

/-- The current task of a process with a child, and the child's command. -/
theorem QueueOK.task {u : UpgradeFactorySnapshot} (h : QueueOK u) {c : SnapshotCmd} (hc : c ∈ u.children) :
    0 ≤ u.deployQueue.current ∧
      ∃ task, gDeployTasks[u.deployQueue.current.toNat]? = some task ∧ task.cmd = some c := by
  obtain ⟨h0, h1⟩ := h.child c hc
  rw [Option.bind_eq_some_iff] at h1
  exact ⟨h0, h1⟩

/-- A child is the only thing that is pending. -/
theorem QueueOK.single {u : UpgradeFactorySnapshot} (h : QueueOK u) {i : ℕ} {c : SnapshotCmd}
    (hc : u.children[i]? = some c) : i = 0 ∧ u.children = [c] ∧ u.nextEntries = 0 ∧ u.delayedFinishes = 0 := by
  have hone := h.one
  unfold UpgradeFactorySnapshot.pending at hone
  obtain ⟨hi, hic⟩ := List.getElem?_eq_some_iff.1 hc
  have hlen : u.children.length = 1 := by omega
  obtain ⟨c', hc'⟩ := List.length_eq_one_iff.1 hlen
  have hi0 : i = 0 := by omega
  subst hi0
  rw [hc', List.getElem?_cons_zero, Option.some.injEq] at hc
  subst hc
  exact ⟨rfl, hc', by omega, by omega⟩

/-- A scheduled callback is the only thing that is pending. -/
theorem QueueOK.scheduled {u : UpgradeFactorySnapshot} (h : QueueOK u) (hn : u.nextEntries ≠ 0) :
    u.nextEntries = 1 ∧ u.children = [] ∧ u.delayedFinishes = 0 ∧ u.running = true := by
  have hone := h.one
  have hidle := h.idle
  unfold UpgradeFactorySnapshot.pending at hone hidle
  refine ⟨by omega, List.eq_nil_of_length_eq_zero (by omega), by omega, ?_⟩
  by_contra hr
  have := hidle (by simpa using hr)
  omega

/-- There is a task at every position from the first to the terminator. -/
theorem gDeployTasks_some {k : ℤ} (h0 : 0 ≤ k) (h8 : k ≤ 8) : ∃ task, gDeployTasks[k.toNat]? = some task := by
  have hlt : k.toNat < gDeployTasks.length := by
    have hlen : gDeployTasks.length = 9 := rfl
    omega
  exact ⟨_, List.getElem?_eq_getElem hlt⟩

/-- **There is a current task** from the first launch to the end of the queue. -/
theorem QueueOK.getCurrentTask {u : UpgradeFactorySnapshot} (h : QueueOK u) (h0 : 0 ≤ u.deployQueue.current) :
    ∃ task, u.deployQueue.getCurrentTask = some task := by
  obtain ⟨task, ht⟩ := gDeployTasks_some h0 (by have := h.current; omega)
  exact ⟨task, by rw [DeployTaskQueue.getCurrentTask, if_pos h0, h.tasks, ht]⟩

/-- `broadcast_status` only writes the status. -/
theorem broadcastStatus_ok {u u' : UpgradeFactorySnapshot} {p : String} {k : ℤ} {m : String}
    (h : u.broadcastStatus p k m = .ok u') : u' = { u with status := u'.status } := by
  unfold UpgradeFactorySnapshot.broadcastStatus at h
  split at h
  · simp at h
  · simp only [Except.ok.injEq] at h
    subst h; rfl

/-- While a task is current, the status is broadcast. -/
theorem broadcastStatus_some {u : UpgradeFactorySnapshot} {task : DeployTask}
    (h : u.deployQueue.getCurrentTask = some task) (p : String) (k : ℤ) (m : String) :
    ∃ st, u.broadcastStatus p k m = .ok { u with status := st } := by
  unfold UpgradeFactorySnapshot.broadcastStatus
  rw [h]
  exact ⟨_, rfl⟩

/-- What a step of the deploy queue can do: nothing on a finished queue, launch the
next task, or finish. -/
theorem deployTaskQueueNext_cases {u u' : UpgradeFactorySnapshot} {spawned : Bool}
    (h : u.deployTaskQueueNext spawned = .ok u') :
    (u.deployQueue.finished = true ∧ u' = u) ∨
    (u.deployQueue.finished = false ∧ ∃ task c st, u.deployQueue.tasks[(u.deployQueue.current + 1).toNat]? = some task ∧
      0 ≤ u.deployQueue.current + 1 ∧ task.cmd = some c ∧
      u' = { u with deployQueue := { u.deployQueue with current := u.deployQueue.current + 1 },
                    status := st, children := u.children ++ [c] }) ∨
    (u.deployQueue.finished = false ∧ ∃ task, u.deployQueue.tasks[(u.deployQueue.current + 1).toNat]? = some task ∧
      task.cmd = none ∧
      u' = { u with deployQueue := { u.deployQueue with current := -1, finished := true },
                    delayedFinishes := u.delayedFinishes + 1 }) := by
  unfold UpgradeFactorySnapshot.deployTaskQueueNext at h
  split at h
  · rename_i hfin
    simp at h; exact .inl ⟨hfin, h.symm⟩
  · rename_i hfin
    right
    have hfin : u.deployQueue.finished = false := by simpa using hfin
    simp only [DeployTaskQueue.getCurrentTask] at h
    split at h
    · simp at h
    · rename_i task htask
      split at htask
      · rename_i hpos
        split at h
        · rename_i c hc
          left
          simp only [UpgradeFactorySnapshot.runAsync, DeployTaskQueue.getCurrentTask, if_pos hpos, htask,
            bind_ok] at h
          obtain ⟨v, hv, h⟩ := h
          have := broadcastStatus_ok hv
          split at h
          · simp only [Except.ok.injEq] at h
            subst h
            refine ⟨hfin, task, c, v.status, htask, hpos, hc, ?_⟩
            rw [this, hc]
            rfl
          · simp at h
        · rename_i hc
          right
          simp only [UpgradeFactorySnapshot.finishedCb, Except.ok.injEq] at h
          exact ⟨hfin, task, htask, hc, h.symm⟩
      · simp at htask

/-- What the exit of a child can do: schedule the next entry, when the task did
not fail or was not checked. -/
theorem onSubprocessFinishedCb_cases {u u' : UpgradeFactorySnapshot} {ok : Bool}
    (h : u.onSubprocessFinishedCb ok = .ok u') :
    ∃ task st, u.deployQueue.tasks[u.deployQueue.current.toNat]? = some task ∧
      0 ≤ u.deployQueue.current ∧ (ok = true ∨ task.checked = false) ∧
      u' = { u with status := st, nextEntries := u.nextEntries + 1 } := by
  unfold UpgradeFactorySnapshot.onSubprocessFinishedCb at h
  split at h
  · simp at h
  · rename_i task htask
    simp only [DeployTaskQueue.getCurrentTask] at htask
    split at htask
    · rename_i hpos
      simp only [bind_ok, deployTaskHandleExitStatus] at h
      obtain ⟨_, h1, v, hv, h2⟩ := h
      have := broadcastStatus_ok hv
      simp only [UpgradeFactorySnapshot.taskDoneCb, Except.ok.injEq] at h2
      refine ⟨task, v.status, htask, hpos, ?_, ?_⟩
      · by_contra hc
        push Not at hc
        have hok : ok = false := by simpa using hc.1
        have hch : task.checked = true := by simpa using hc.2
        simp [hok, hch] at h1
      · subst h2; rw [this]
    · simp at htask

/-- A deploy task launched, or the queue finished: the queue invariant. -/
theorem queueOK_next {u u' : UpgradeFactorySnapshot} {spawned : Bool} (hu : QueueOK u) (hn : u.nextEntries ≠ 0)
    (h : { u with nextEntries := u.nextEntries - 1 }.deployTaskQueueNext spawned = .ok u') : QueueOK u' := by
  obtain ⟨h1, hchild, hfinish, hrun⟩ := hu.scheduled hn
  have hcur := hu.current
  have hnot : ∀ {v : UpgradeFactorySnapshot}, v.running = u.running → ¬ v.running = false := by
    intro v hv; rw [hv, hrun]; decide
  rcases deployTaskQueueNext_cases h with ⟨_, rfl⟩ | ⟨hfin, task, c, st, ht, h0, hc, rfl⟩ | ⟨hfin, task, ht, hc, rfl⟩
  · refine ⟨hu.tasks, hu.cleanup, hcur, ?_, fun hr => absurd hr (hnot rfl), hu.child,
      fun hr => absurd hr (hnot rfl), hu.done⟩
    simp [UpgradeFactorySnapshot.pending, h1, hchild, hfinish]
  · rw [hu.tasks] at ht
    dsimp only at ht h0
    have h7 : u.deployQueue.current + 1 ≤ 7 := by
      rcases eq_or_lt_of_le hcur.2 with h7 | h7
      · rw [h7] at ht; simp [gDeployTasks] at ht; subst ht; simp at hc
      · omega
    refine ⟨hu.tasks, hu.cleanup, ⟨by dsimp only; omega, h7⟩, ?_, fun hr => absurd hr (hnot rfl), ?_,
      fun hr => absurd hr (hnot rfl), hu.done⟩
    · simp [UpgradeFactorySnapshot.pending, h1, hchild, hfinish]
    · intro c' hc'
      simp only [hchild, List.nil_append, List.mem_singleton] at hc'
      subst hc'
      exact ⟨h0, by simp only [ht, Option.bind_some, hc]⟩
  · refine ⟨hu.tasks, hu.cleanup, by simp, ?_, fun hr => absurd hr (hnot rfl), ?_, fun hr => absurd hr (hnot rfl),
      fun _ => rfl⟩
    · simp [UpgradeFactorySnapshot.pending, h1, hchild, hfinish]
    · intro c hc; simp [hchild] at hc

/-- The exit of a child: the queue invariant. -/
theorem queueOK_childExit {u u' : UpgradeFactorySnapshot} {i : ℕ} {c : SnapshotCmd} {ok : Bool} (hu : QueueOK u)
    (hc : u.children[i]? = some c)
    (h : { u with children := u.children.eraseIdx i }.onSubprocessFinishedCb ok = .ok u') : QueueOK u' := by
  obtain ⟨rfl, hchild, hnext, hfinish⟩ := hu.single hc
  have hrun : u.running ≠ false := by
    intro hr
    have := hu.idle hr
    simp [UpgradeFactorySnapshot.pending, hchild] at this
  obtain ⟨_, st, _, _, _, rfl⟩ := onSubprocessFinishedCb_cases h
  refine ⟨hu.tasks, hu.cleanup, hu.current, ?_, fun hr => absurd hr hrun, ?_, fun hr => absurd hr hrun, hu.done⟩
  · simp [UpgradeFactorySnapshot.pending, hchild, hnext, hfinish]
  · intro c' hc'; simp [hchild] at hc'

/-! ## The process -/

/-- The state of the service, if there is a process. -/
def Proc.service : Proc → Option UpgradeFactorySnapshot
  | .off => none
  | .up u => some u
  | .exiting u _ => some u

/-- The children that the process has launched and not seen exit. -/
def Proc.children : Proc → List SnapshotCmd
  | .off => []
  | .up u => u.children
  | .exiting u _ => u.children

/-- What holds of the service, if there is a process. -/
def Proc.All (P : UpgradeFactorySnapshot → Prop) : Proc → Prop
  | .off => True
  | .up u => P u
  | .exiting u _ => P u

theorem Proc.All.service {P : UpgradeFactorySnapshot → Prop} {p : Proc} {u : UpgradeFactorySnapshot} (h : p.All P)
    (hu : p.service = some u) : P u := by
  cases p with
  | off => cases hu
  | up v => cases hu; exact h
  | exiting v ignored => cases hu; exact h

theorem Proc.all_service {P : UpgradeFactorySnapshot → Prop} {p : Proc} : p.All P ↔ ∀ u, p.service = some u → P u := by
  refine ⟨fun h u hu => h.service hu, fun h => ?_⟩
  cases p with
  | off => trivial
  | up u => exact h u rfl
  | exiting u ignored => exact h u rfl

theorem Proc.children_service {p : Proc} {u : UpgradeFactorySnapshot} (h : p.service = some u) :
    p.children = u.children := by
  cases p with
  | off => cases h
  | up v => cases h; rfl
  | exiting v ignored => cases h; rfl

/-- **What an event does to a process in its main loop**: nothing that the queue sees, a `Start` answered TRUE,
one of the continuations of the queue, or the end of the loop. -/
inductive World.UpStep (w : World) (u : UpgradeFactorySnapshot) : Event → World → Prop where
  | kept {e : Event} (st : UpgradeStatus) (timer : Bool) (hstart : e = .start → u.running = true) :
      UpStep w u e { w with proc := .up { u with status := st, idleTimer := timer } }
  | started (hrun : u.running = false) : UpStep w u .start { w with proc := .up u.start.2.scheduleQuit }
  | next {spawned : Bool} {u' : UpgradeFactorySnapshot} (hn : u.nextEntries ≠ 0)
      (hnext : { u with nextEntries := u.nextEntries - 1 }.deployTaskQueueNext spawned = .ok u') :
      UpStep w u (.nextEntry spawned) { w with proc := .up u' }
  | nextFails {spawned : Bool} (hn : u.nextEntries ≠ 0) :
      UpStep w u (.nextEntry spawned) (w.exit { u with nextEntries := u.nextEntries - 1 } false)
  | childDone {i : ℕ} {ok : Bool} {c : SnapshotCmd} {u' : UpgradeFactorySnapshot} (hc : u.children[i]? = some c)
      (hdone : { u with children := u.children.eraseIdx i }.onSubprocessFinishedCb (c.run ok w.store).1 = .ok u') :
      UpStep w u (.childExit i ok) { w with store := (c.run ok w.store).2, proc := .up u' }
  | childFails {i : ℕ} {ok : Bool} {c : SnapshotCmd} {x : Stop} (hc : u.children[i]? = some c)
      (hfail : { u with children := u.children.eraseIdx i }.onSubprocessFinishedCb (c.run ok w.store).1 = .error x) :
      UpStep w u (.childExit i ok)
        ({ w with store := (c.run ok w.store).2 }.exit { u with children := u.children.eraseIdx i } false)
  | finished (hn : u.delayedFinishes ≠ 0) : UpStep w u .delayedFinish
      { w with proc := .up ({ u with delayedFinishes := u.delayedFinishes - 1 }.setRunning false).scheduleQuit }
  | left {e : Event} (ignored : Bool) (he : e ≠ .start) (hcause : e = .quit ignored ∨
      ignored = false ∧ (u.running = false ∨ u.deployQueue.getCurrentTask = none)) : UpStep w u e (w.exit u ignored)

/-- There is no current task where the status is not broadcast. -/
theorem broadcastStatus_error {u : UpgradeFactorySnapshot} {p : String} {k : ℤ} {m : String} {x : Stop}
    (h : u.broadcastStatus p k m = .error x) : u.deployQueue.getCurrentTask = none := by
  by_contra hne
  obtain ⟨task, ht⟩ := Option.ne_none_iff_exists'.1 hne
  obtain ⟨st, hst⟩ := broadcastStatus_some ht p k m
  rw [hst] at h
  cases h

/-- Each event does one of these. -/
theorem stepUp_cases {w : World} {u : UpgradeFactorySnapshot} (hp : w.proc = .up u) (e : Event) :
    w.UpStep u e (w.stepUp u e) := by
  have hsame : (e = .start → u.running = true) → w.UpStep u e w := by
    intro hstart
    have hkept := World.UpStep.kept (w := w) (u := u) u.status u.idleTimer hstart
    rwa [← hp] at hkept
  cases e with
  | start =>
    by_cases hrun : u.running = true
    · simp only [World.stepUp, UpgradeFactorySnapshot.start, if_pos hrun]
      exact .kept u.status true fun _ => hrun
    · exact .started (by simpa using hrun)
  | call => exact .kept u.status true Event.noConfusion
  | progress p k m =>
    simp only [World.stepUp]
    cases hr : u.broadcastStatus p k m with
    | ok u' =>
      rw [broadcastStatus_ok hr]
      exact .kept u'.status u.idleTimer Event.noConfusion
    | error x => exact .left false Event.noConfusion (.inr ⟨rfl, .inr (broadcastStatus_error hr)⟩)
  | nextEntry spawned =>
    simp only [World.stepUp]
    split
    · exact hsame Event.noConfusion
    · rename_i hn
      cases hr : { u with nextEntries := u.nextEntries - 1 }.deployTaskQueueNext spawned with
      | ok u' => exact .next hn hr
      | error x => exact .nextFails hn
  | childExit i ok =>
    simp only [World.stepUp]
    split
    · exact hsame Event.noConfusion
    · rename_i c hc
      cases hr : { u with children := u.children.eraseIdx i }.onSubprocessFinishedCb (c.run ok w.store).1 with
      | ok u' => exact .childDone hc hr
      | error x => exact .childFails hc hr
  | delayedFinish =>
    simp only [World.stepUp]
    split
    · exact hsame Event.noConfusion
    · rename_i hn
      exact .finished hn
  | idleTimeout =>
    simp only [World.stepUp]
    split
    · exact hsame Event.noConfusion
    · split
      · exact .kept u.status false Event.noConfusion
      · rename_i hrun
        exact .left false Event.noConfusion (.inr ⟨rfl, .inl (by simpa using hrun)⟩)
  | quit ignored => exact .left ignored Event.noConfusion (.inl rfl)
  | _ => exact hsame Event.noConfusion

/-- Aborting the deploy queue keeps the invariant. -/
theorem QueueOK.abort {u : UpgradeFactorySnapshot} (h : QueueOK u) :
    QueueOK { u with deployQueue := u.deployQueue.abort } :=
  ⟨h.tasks, h.cleanup, h.current, h.one, h.idle, h.child, fun _ hf => absurd hf (by simp [DeployTaskQueue.abort]),
    fun _ => rfl⟩

/-- Taking callbacks and children out keeps the invariant. -/
theorem QueueOK.without {u : UpgradeFactorySnapshot} (h : QueueOK u) {n : ℕ} {cs : List SnapshotCmd}
    (hn : n ≤ u.nextEntries) (hcs : cs.Sublist u.children) :
    QueueOK { u with nextEntries := n, children := cs } := by
  have hone := h.one
  have hidle := h.idle
  have hlen := hcs.length_le
  unfold UpgradeFactorySnapshot.pending at hone hidle
  refine ⟨h.tasks, h.cleanup, h.current, ?_, fun hr => ?_, fun c hc => h.child c (hcs.subset hc), h.fresh, h.done⟩
  · unfold UpgradeFactorySnapshot.pending; simp only; omega
  · have := hidle hr
    unfold UpgradeFactorySnapshot.pending; simp only; omega

/-- A `Start` answered TRUE: the queue invariant. -/
theorem queueOK_start {u : UpgradeFactorySnapshot} (hu : QueueOK u) (hrun : u.running = false) :
    QueueOK u.start.2.scheduleQuit := by
  have hidle := hu.idle hrun
  unfold UpgradeFactorySnapshot.pending at hidle
  simp only [UpgradeFactorySnapshot.start, hrun, Bool.false_eq_true, if_false]
  refine ⟨hu.tasks, hu.cleanup, hu.current, ?_, fun hr => Bool.noConfusion hr, hu.child, fun hr => Bool.noConfusion hr,
    hu.done⟩
  simp only [UpgradeFactorySnapshot.pending, UpgradeFactorySnapshot.setRunning, UpgradeFactorySnapshot.scheduleQuit]
  omega

/-- The timer of `finished_cb`: the queue invariant. -/
theorem queueOK_finish {u : UpgradeFactorySnapshot} (hu : QueueOK u) (hn : u.delayedFinishes ≠ 0) :
    QueueOK ({ u with delayedFinishes := u.delayedFinishes - 1 }.setRunning false).scheduleQuit := by
  have hone := hu.one
  have hfin := hu.done hn
  unfold UpgradeFactorySnapshot.pending at hone
  refine ⟨hu.tasks, hu.cleanup, hu.current, ?_, fun _ => ?_, hu.child, fun _ hf => ?_, fun _ => hfin⟩
  · simp only [UpgradeFactorySnapshot.pending, UpgradeFactorySnapshot.setRunning, UpgradeFactorySnapshot.scheduleQuit]
    omega
  · simp only [UpgradeFactorySnapshot.pending, UpgradeFactorySnapshot.setRunning, UpgradeFactorySnapshot.scheduleQuit]
    omega
  · exact absurd (hfin.symm.trans hf) (by decide)

/-- **One event at a process in its main loop.** -/
theorem World.UpStep.queueOK {w w' : World} {u : UpgradeFactorySnapshot} {e : Event} (h : w.UpStep u e w')
    (hu : QueueOK u) : w'.proc.All QueueOK := by
  cases h with
  | kept => exact hu.congr rfl
  | started hrun => exact queueOK_start hu hrun
  | next hn hnext => exact queueOK_next hu hn hnext
  | nextFails => exact (hu.without (Nat.sub_le _ _) (List.Sublist.refl _)).abort
  | childDone hc hdone => exact queueOK_childExit hu hc hdone
  | childFails => exact (hu.without le_rfl (List.eraseIdx_sublist _ _)).abort
  | finished hn => exact queueOK_finish hu hn
  | left => exact hu.abort

/-- **What an event does to a process in its cleanup**: a step of the cleanup queue, the exit of a child, or the
end of the process. -/
inductive World.ExitStep (w : World) (u : UpgradeFactorySnapshot) (ignored : Bool) : World → Prop where
  | kept : ExitStep w u ignored w
  | cleaned (q : DeployTaskQueue) (hq : q.tasks = u.cleanupQueue.tasks) :
      ExitStep w u ignored (w.cleaned { u with cleanupQueue := q } ignored)
  | ran (q : DeployTaskQueue) (hq : q.tasks = u.cleanupQueue.tasks) {task : DeployTask} {c : SnapshotCmd} (ok : Bool)
      (htask : task ∈ u.cleanupQueue.tasks) (hcmd : task.cmd = some c) :
      ExitStep w u ignored { w with store := (c.run ok w.store).2, proc := .exiting { u with cleanupQueue := q } ignored }
  | gone : ExitStep w u ignored (w.gone u)
  | failed {task : DeployTask} {c : SnapshotCmd} (ok : Bool) (htask : task ∈ u.cleanupQueue.tasks)
      (hcmd : task.cmd = some c) : ExitStep w u ignored ({ w with store := (c.run ok w.store).2 }.gone u)
  | childDone {i : ℕ} {c : SnapshotCmd} (ok : Bool) (hc : u.children[i]? = some c) (hign : ignored = false) :
      ExitStep w u ignored
        { w with store := (c.run ok w.store).2, proc := .exiting { u with children := u.children.eraseIdx i } ignored }

/-- Each event does one of these. -/
theorem stepExiting_cases (w : World) (u : UpgradeFactorySnapshot) (ignored : Bool) (e : Event) :
    w.ExitStep u ignored (w.stepExiting u ignored e) := by
  cases e with
  | cleanup ok =>
    simp only [World.stepExiting, DeployTaskQueue.getCurrentTask]
    split
    · exact .cleaned u.cleanupQueue rfl
    · split
      · exact .gone
      · rename_i task htask
        have hmem : task ∈ u.cleanupQueue.tasks := by
          split at htask
          · exact List.mem_of_getElem? htask
          · cases htask
        split
        · exact .cleaned _ rfl
        · rename_i c hcmd
          split
          · exact .ran { u.cleanupQueue with current := u.cleanupQueue.current + 1 } rfl ok hmem hcmd
          · exact .failed ok hmem hcmd
  | childExit i ok =>
    simp only [World.stepExiting]
    split
    · exact .kept
    · rename_i c hc
      split
      · exact .kept
      · rename_i hign
        exact .childDone ok hc (by simpa using hign)
  | cut => exact .gone
  | _ => exact .kept

/-- Another cleanup queue of the same tasks. -/
theorem QueueOK.cleanupAt {u : UpgradeFactorySnapshot} (h : QueueOK u) {q : DeployTaskQueue}
    (hq : q.tasks = u.cleanupQueue.tasks) : QueueOK { u with cleanupQueue := q } :=
  ⟨h.tasks, hq.trans h.cleanup, h.current, h.one, h.idle, h.child, h.fresh, h.done⟩

/-- **One event at a process in its cleanup.** -/
theorem World.ExitStep.queueOK {w w' : World} {u : UpgradeFactorySnapshot} {ignored : Bool}
    (h : w.ExitStep u ignored w') (hp : w.proc = .exiting u ignored) (hu : QueueOK u) : w'.proc.All QueueOK := by
  cases h with
  | kept => rw [hp]; exact hu
  | cleaned q hq =>
    unfold World.cleaned
    split
    · exact hu.cleanupAt hq
    · trivial
  | ran q hq => exact hu.cleanupAt hq
  | gone => trivial
  | failed => trivial
  | childDone => exact hu.without le_rfl (List.eraseIdx_sublist _ _)

/-- **Every event keeps the invariant of the queue.** -/
theorem step_queueOK {w : World} (e : Event) (h : w.proc.All QueueOK) : (w.step e).proc.All QueueOK := by
  unfold World.step
  split
  · exact h
  · exact h
  · split
    · split
      · exact queueOK_init
      · exact h
    · rename_i u hp
      rw [hp] at h
      exact (stepUp_cases hp _).queueOK h
    · rename_i u ignored hp
      rw [hp] at h
      exact (stepExiting_cases w u ignored _).queueOK hp h

/-- A command that ends after its process has gone changes the snapshots only. -/
theorem step_orphanExit (w : World) (ok : Bool) : (w.step (.orphanExit ok)).proc = w.proc := by
  cases ho : w.orphans <;> simp only [World.step, ho]

theorem step_up {w : World} {u : UpgradeFactorySnapshot} {e : Event} (hp : w.proc = .up u)
    (he : ∀ ok, e ≠ .orphanExit ok) : w.step e = w.stepUp u e := by
  cases e with
  | orphanExit ok => exact absurd rfl (he ok)
  | _ => simp only [World.step, hp]

theorem step_exiting {w : World} {u : UpgradeFactorySnapshot} {ignored : Bool} {e : Event}
    (hp : w.proc = .exiting u ignored) (he : ∀ ok, e ≠ .orphanExit ok) : w.step e = w.stepExiting u ignored e := by
  cases e with
  | orphanExit ok => exact absurd rfl (he ok)
  | _ => simp only [World.step, hp]

theorem step_off {w : World} {e : Event} (hp : w.proc = .off) (he : e ≠ .launch) : (w.step e).proc = .off := by
  cases e with
  | orphanExit ok => rw [step_orphanExit, hp]
  | launch => exact absurd rfl he
  | _ => simp [World.step, hp]

/-- A world without a process of the service. -/
def World.rest (store : Store) (orphans : List SnapshotCmd) : World := ⟨store, .off, orphans⟩

variable {store : Store} {orphans : List SnapshotCmd} {es : List Event}

/-- **The queue is all right in every state of a run.** -/
theorem wAt_queueOK {n : ℕ} (hn : n ≤ es.length) : (wAt (.rest store orphans) es n).proc.All QueueOK :=
  stateAt_inv (fun w : World => w.proc.All QueueOK) (show Proc.All QueueOK .off from trivial)
    (fun _ _ h => step_queueOK _ h) n hn

theorem wAt_up {n : ℕ} (hn : n ≤ es.length) {u : UpgradeFactorySnapshot}
    (hp : (wAt (.rest store orphans) es n).proc = .up u) : QueueOK u := by
  have h : (wAt (.rest store orphans) es n).proc.All QueueOK := wAt_queueOK hn
  rw [hp] at h
  exact h

/-! ## No current task -/

/-- The result of the callback that an event runs in the main loop, if it runs one that can fail. -/
def UpgradeFactorySnapshot.handled (u : UpgradeFactorySnapshot) (store : Store) :
    Event → Option (Exec UpgradeFactorySnapshot)
  | .progress p k m => some (u.broadcastStatus p k m)
  | .nextEntry spawned =>
    if u.nextEntries = 0 then none
    else some ({ u with nextEntries := u.nextEntries - 1 }.deployTaskQueueNext spawned)
  | .childExit i ok => u.children[i]?.map fun c =>
      { u with children := u.children.eraseIdx i }.onSubprocessFinishedCb (c.run ok store).1
  | _ => none

/-- The deploy queue as `broadcast_status`, `run_async` or the child-exit callback finds it on entry,
when an event enters one of them. -/
def UpgradeFactorySnapshot.entered (u : UpgradeFactorySnapshot) : Event → Option DeployTaskQueue
  | .progress _ _ _ => some u.deployQueue
  | .nextEntry _ =>
    if u.nextEntries = 0 ∨ u.deployQueue.finished = true then none
    else
      let q := { u.deployQueue with current := u.deployQueue.current + 1 }
      -- the terminator is not run
      if (q.getCurrentTask.bind DeployTask.cmd).isSome then some q else none
  | .childExit i _ => if i < u.children.length then some u.deployQueue else none
  | _ => none

/-- **An event finds a current task**, wherever a callback asks for one. -/
structure Event.FindsTask (w : World) (e : Event) : Prop where
  handled : ∀ u, w.proc = .up u → u.handled w.store e ≠ some (failAndExit "Current task is invalid\n")
  entered : ∀ u, w.proc = .up u → ∀ q ∈ u.entered e, q.getCurrentTask ≠ none

/-- A callback that fails makes the process leave its main loop. -/
theorem handled_error {w : World} {u : UpgradeFactorySnapshot} {e : Event} {x : Stop} (hp : w.proc = .up u)
    (h : u.handled w.store e = some (.error x)) : ∃ v, (w.step e).proc = .exiting v false := by
  cases e with
  | progress p k m =>
    simp only [UpgradeFactorySnapshot.handled, Option.some.injEq] at h
    exact ⟨_, by simp only [World.step, hp, World.stepUp, h]; rfl⟩
  | nextEntry spawned =>
    simp only [UpgradeFactorySnapshot.handled] at h
    split at h
    · cases h
    · rename_i hn
      rw [Option.some.injEq] at h
      exact ⟨_, by simp only [World.step, hp, World.stepUp, if_neg hn, h]; rfl⟩
  | childExit i ok =>
    simp only [UpgradeFactorySnapshot.handled, Option.map_eq_some_iff] at h
    obtain ⟨c, hc, h⟩ := h
    exact ⟨_, by simp only [World.step, hp, World.stepUp, hc, h]; rfl⟩
  | _ => cases h

/-- The queue does not run past its terminator. -/
theorem QueueOK.next {u : UpgradeFactorySnapshot} (h : QueueOK u) :
    ∃ task, ({ u.deployQueue with current := u.deployQueue.current + 1 } : DeployTaskQueue).getCurrentTask
      = some task := by
  have hcur := h.current
  have h0 : 0 ≤ u.deployQueue.current + 1 := by omega
  obtain ⟨task, ht⟩ := gDeployTasks_some h0 (by omega)
  refine ⟨task, ?_⟩
  unfold DeployTaskQueue.getCurrentTask
  rw [if_pos h0]
  simpa only [h.tasks] using ht

/-- A step of the queue that has a task to come finds it. -/
theorem deployTaskQueueNext_finds {u : UpgradeFactorySnapshot} {spawned : Bool} {task : DeployTask}
    (h : ({ u.deployQueue with current := u.deployQueue.current + 1 } : DeployTaskQueue).getCurrentTask = some task) :
    u.deployTaskQueueNext spawned ≠ failAndExit "Current task is invalid\n" := by
  intro hfail
  unfold UpgradeFactorySnapshot.deployTaskQueueNext at hfail
  split at hfail
  · cases hfail
  · simp only [h] at hfail
    split at hfail
    · obtain ⟨st, hst⟩ := @broadcastStatus_some
        { u with deployQueue := { u.deployQueue with current := u.deployQueue.current + 1 } } task h "" 0 "Starting"
      simp only [UpgradeFactorySnapshot.runAsync, h, hst, ok_bind] at hfail
      split at hfail
      · cases hfail
      · simp [failAndExit] at hfail
    · cases hfail

/-- The exit of a child finds the task that it ran. -/
theorem onSubprocessFinishedCb_finds {u : UpgradeFactorySnapshot} {ok : Bool} {task : DeployTask}
    (h : u.deployQueue.getCurrentTask = some task) :
    u.onSubprocessFinishedCb ok ≠ failAndExit "Current task is invalid\n" := by
  intro hfail
  obtain ⟨st, hst⟩ := broadcastStatus_some h "" 100 "Finishing"
  simp only [UpgradeFactorySnapshot.onSubprocessFinishedCb, h, hst, deployTaskHandleExitStatus] at hfail
  split at hfail
  · simp [failAndExit] at hfail
  · cases hfail

/-- **One event finds a current task**, if it is not a `Progress` signal without one. -/
theorem QueueOK.findsTask {w : World} {e : Event} (hw : w.proc.All QueueOK)
    (hsig : ∀ p k m u, e = .progress p k m → w.proc = .up u → 0 ≤ u.deployQueue.current) : e.FindsTask w := by
  have hqueue : ∀ u, w.proc = .up u → QueueOK u := by
    intro u hp
    rw [hp] at hw
    exact hw
  -- what the callback answers, then what the queue is when it is entered
  constructor
  · intro u hp
    have hu := hqueue u hp
    cases e with
    | progress p k m =>
      obtain ⟨task, ht⟩ := hu.getCurrentTask (hsig p k m u rfl hp)
      obtain ⟨st, hst⟩ := broadcastStatus_some ht p k m
      simp [UpgradeFactorySnapshot.handled, hst, failAndExit]
    | nextEntry spawned =>
      simp only [UpgradeFactorySnapshot.handled]
      split
      · simp
      · obtain ⟨task, ht⟩ := hu.next
        rw [ne_eq, Option.some.injEq]
        exact deployTaskQueueNext_finds ht
    | childExit i ok =>
      simp only [UpgradeFactorySnapshot.handled, ne_eq, Option.map_eq_some_iff, not_exists, not_and]
      intro c hc
      obtain ⟨task, ht⟩ := hu.getCurrentTask (hu.task (List.mem_of_getElem? hc)).1
      exact onSubprocessFinishedCb_finds ht
    | _ => simp [UpgradeFactorySnapshot.handled]
  · intro u hp q hq
    have hu := hqueue u hp
    cases e with
    | progress p k m =>
      obtain ⟨task, ht⟩ := hu.getCurrentTask (hsig p k m u rfl hp)
      simp only [UpgradeFactorySnapshot.entered, Option.mem_def, Option.some.injEq] at hq
      rw [← hq, ht]
      simp
    | nextEntry spawned =>
      simp only [UpgradeFactorySnapshot.entered] at hq
      split at hq
      · cases hq
      · split at hq
        · rename_i hcmd
          simp only [Option.mem_def, Option.some.injEq] at hq
          intro hnone
          rw [hq, hnone] at hcmd
          simp at hcmd
        · cases hq
    | childExit i ok =>
      simp only [UpgradeFactorySnapshot.entered] at hq
      split at hq
      · rename_i hi
        simp only [Option.mem_def, Option.some.injEq] at hq
        obtain ⟨task, ht⟩ := hu.getCurrentTask (hu.task (List.getElem_mem hi)).1
        rw [← hq, ht]
        simp
      · cases hq
    | _ => cases hq

/-- **The service never misses its current task, except for signals.** Over every run:
all events find a current task wherever a callback asks for one, if and only if no
`Progress` signal comes while no task is current. -/
theorem status_survived_iff :
    (∀ n (hn : n < es.length), es[n].FindsTask (wAt (.rest store orphans) es n)) ↔
      ∀ n (hn : n < es.length) p k m u, es[n] = .progress p k m →
        (wAt (.rest store orphans) es n).proc = .up u → 0 ≤ u.deployQueue.current := by
  constructor
  · intro h n hn p k m u he hp
    have hentered := (h n hn).entered u hp u.deployQueue (by rw [he]; rfl)
    by_contra h0
    exact hentered (if_neg h0)
  · intro h n hn
    exact QueueOK.findsTask (wAt_queueOK (by omega)) (fun p k m u he hp => h n hn p k m u he hp)

/-- **A signal can end the service.** The bus activates it, and the next `Progress`
signal of a deployment that it did not start finds no current task. -/
theorem status_kills : ¬ ∀ (store : Store) (orphans : List SnapshotCmd) (es : List Event) (n : ℕ)
    (hn : n < es.length), es[n].FindsTask (wAt (.rest store orphans) es n) := by
  intro h
  have hfinds := h (fun _ => none) [] [.launch, .progress "@" 10 "Unpacking"] 1 (by decide)
  exact hfinds.handled gUfs rfl rfl

end Sfmf

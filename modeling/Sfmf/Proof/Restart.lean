import Sfmf.Proof.Deploy

/-!
# Starting the upgrade service again

`deploy_task_queue_next` marks the queue finished after `finished_cb` has reset it,
and nothing takes the mark back. A `Start` that comes after a completed deployment
is answered TRUE, and the callback it schedules finds a finished queue.

* `Moving`: while the service runs, something is pending that drives it on.
* `restarts_iff`: a run never gets stuck, and each `Start` answered TRUE has its first
  task launched, exactly when no `Start` is answered TRUE with a finished queue.
* `restart_stuck`: a second deployment that is stuck.
-/

namespace Sfmf

/-- **The service never gets stuck** in a run from `w`. While it runs, exactly one continuation is
pending, and the callback that a `Start` schedules would launch the first task whenever it is run. -/
structure Restarts (w : World) (es : List Event) : Prop where
  moving : ∀ n, n ≤ es.length → ∀ u, (wAt w es n).proc = .up u → u.running = true → u.pending = 1
  launches : ∀ n m (hn : n < es.length), n < m → m ≤ es.length → (wAt w es n).startsTrue es[n] = true →
    (∀ k, n < k → k ≤ m → ∃ u, (wAt w es k).proc = .up u) →
    (∀ k (hk : k < es.length), n < k → k < m → ∀ spawned, es[k] ≠ .nextEntry spawned) →
    (wAt w es m).launched (.nextEntry true) = deployCmds.take 1

/-! ## While the service runs -/

/-- A service that runs has something pending, and finishes when its queue has finished. -/
structure Moving (u : UpgradeFactorySnapshot) : Prop where
  pending : u.running = true → u.pending = 1
  finishing : u.running = true → u.deployQueue.finished = true → u.delayedFinishes = 1

/-- The process moves on in its main loop, and does not come back to it from its cleanup. -/
def World.Moving (w : World) : Prop :=
  match w.proc with
  | .off => True
  | .up u => Sfmf.Moving u
  | .exiting _ ignored => ignored = false

/-- The idle callback launches a task or the finish timer. -/
theorem moving_next {u u' : UpgradeFactorySnapshot} {spawned : Bool} (hu : QueueOK u) (h : Moving u)
    (hn : u.nextEntries ≠ 0)
    (hr : { u with nextEntries := u.nextEntries - 1 }.deployTaskQueueNext spawned = .ok u') : Moving u' := by
  obtain ⟨hn1, hchild, hdelay, hrun⟩ := hu.scheduled hn
  rcases deployTaskQueueNext_cases hr with ⟨hfin, -⟩ | ⟨hfin, task, c, st, -, -, -, rfl⟩ | ⟨hfin, task, -, -, rfl⟩
  · have := h.finishing hrun hfin
    omega
  · refine ⟨fun _ => ?_, fun _ hf => absurd (hfin.symm.trans hf) (by decide)⟩
    simp [UpgradeFactorySnapshot.pending, hn1, hchild, hdelay]
  · refine ⟨fun _ => ?_, fun _ _ => ?_⟩
    · simp [UpgradeFactorySnapshot.pending, hn1, hchild, hdelay]
    · simp [hdelay]

/-- The exit of a child schedules the next entry. -/
theorem moving_childExit {u u' : UpgradeFactorySnapshot} {i : ℕ} {c : SnapshotCmd} {ok : Bool} (hu : QueueOK u)
    (h : Moving u) (hc : u.children[i]? = some c)
    (hr : { u with children := u.children.eraseIdx i }.onSubprocessFinishedCb ok = .ok u') : Moving u' := by
  obtain ⟨rfl, hchild, hnext, hdelay⟩ := hu.single hc
  obtain ⟨_, st, -, -, -, rfl⟩ := onSubprocessFinishedCb_cases hr
  refine ⟨fun _ => ?_, fun hrun hf => h.finishing hrun hf⟩
  simp [UpgradeFactorySnapshot.pending, hchild, hnext, hdelay]

/-- A `Start` answered TRUE schedules the first callback, unless the queue has finished. -/
theorem moving_start {u : UpgradeFactorySnapshot} (hu : QueueOK u) (hrun : u.running = false)
    (hfin : u.deployQueue.finished = false) : Moving u.start.2.scheduleQuit := by
  have hidle := hu.idle hrun
  unfold UpgradeFactorySnapshot.pending at hidle
  simp only [UpgradeFactorySnapshot.start, hrun, Bool.false_eq_true, if_false]
  refine ⟨fun _ => ?_, fun _ hf => absurd (hfin.symm.trans hf) (by decide)⟩
  simp only [UpgradeFactorySnapshot.pending, UpgradeFactorySnapshot.setRunning, UpgradeFactorySnapshot.scheduleQuit]
  omega

/-- **One event at a process in its main loop.** -/
theorem World.UpStep.moving {w w' : World} {u : UpgradeFactorySnapshot} {e : Event} (h : w.UpStep u e w')
    (hp : w.proc = .up u) (hu : QueueOK u) (hmove : Sfmf.Moving u) (hsig : e ≠ .quit true)
    (hstart : w.startsTrue e = true → u.deployQueue.finished = false) : w'.Moving := by
  cases h with
  | kept => exact ⟨hmove.pending, hmove.finishing⟩
  | started hrun =>
    exact moving_start hu hrun (hstart (by simp [World.startsTrue, hp, UpgradeFactorySnapshot.start, hrun]))
  | next hn hnext => exact moving_next hu hmove hn hnext
  | nextFails => rfl
  | childDone hc hdone => exact moving_childExit hu hmove hc hdone
  | childFails => rfl
  | finished => exact ⟨fun h => absurd h Bool.false_ne_true, fun h => absurd h Bool.false_ne_true⟩
  | left ignored _ hcause =>
    rcases hcause with rfl | ⟨rfl, -⟩
    · cases ignored with
      | true => exact absurd rfl hsig
      | false => rfl
    · rfl

/-- A cleanup that no signal handler runs does not come back to the main loop. -/
theorem World.ExitStep.moving {w w' : World} {u : UpgradeFactorySnapshot} (h : w.ExitStep u false w')
    (hp : w.proc = .exiting u false) : w'.Moving := by
  cases h with
  | kept => unfold World.Moving; rw [hp]
  | cleaned => trivial
  | ran => rfl
  | gone => trivial
  | failed => trivial
  | childDone => rfl

/-- **One event of the world.** -/
theorem World.Moving.step {w : World} {e : Event} (hw : w.proc.All QueueOK) (h : w.Moving) (hsig : e ≠ .quit true)
    (hstart : w.startsTrue e = true → ∀ u, w.proc = .up u → u.deployQueue.finished = false) :
    (w.step e).Moving := by
  unfold World.step
  split
  · exact h
  · exact h
  · split
    · split
      · exact ⟨fun h => absurd h Bool.false_ne_true, fun h => absurd h Bool.false_ne_true⟩
      · exact h
    · rename_i u hp
      unfold World.Moving at h
      rw [hp] at h
      exact (stepUp_cases hp _).moving hp (hw.service (by rw [hp]; rfl)) h hsig (fun ht => hstart ht u hp)
    · rename_i u ignored hp
      unfold World.Moving at h
      rw [hp] at h
      have hign : ignored = false := h
      subst hign
      exact (stepExiting_cases w u false _).moving hp

/-! ## The first task -/

/-- A callback is scheduled that will find the queue at its start. -/
structure Scheduled (u : UpgradeFactorySnapshot) : Prop where
  next : u.nextEntries ≠ 0
  current : u.deployQueue.current = -1
  unfinished : u.deployQueue.finished = false

/-- A `Start` answered TRUE schedules one, unless the queue has finished. -/
theorem scheduled_start {w : World} {e : Event} {v : UpgradeFactorySnapshot} (hw : w.proc.All QueueOK)
    (ht : w.startsTrue e = true) (hfin : ∀ u, w.proc = .up u → u.deployQueue.finished = false)
    (hv : (w.step e).proc = .up v) : Scheduled v := by
  obtain ⟨-, u, hp, hrun, hstep⟩ := startsTrue_up ht
  rw [hstep] at hv
  cases hv
  have hu : QueueOK u := hw.service (by rw [hp]; rfl)
  simp only [UpgradeFactorySnapshot.start, hrun]
  exact ⟨Nat.succ_ne_zero _, hu.fresh hrun (hfin u hp), hfin u hp⟩

/-- It stays scheduled until it is run, if the process stays in its main loop. -/
theorem Scheduled.stepUp {w w' : World} {e : Event} {u v : UpgradeFactorySnapshot} (hu : QueueOK u)
    (h : Scheduled u) (he : ∀ spawned, e ≠ .nextEntry spawned) (hstep : w.UpStep u e w') (hv : w'.proc = .up v) :
    Scheduled v := by
  obtain ⟨-, hchild, hdelay, hrun⟩ := hu.scheduled h.next
  cases hstep with
  | kept =>
    cases hv
    exact ⟨h.next, h.current, h.unfinished⟩
  | started hidle => exact absurd (hidle.symm.trans hrun) (by decide)
  | next => exact absurd rfl (he _)
  | nextFails => exact absurd rfl (he _)
  | childDone hc => simp [hchild] at hc
  | childFails hc => simp [hchild] at hc
  | finished hn => exact absurd hdelay hn
  | left => cases hv

theorem Scheduled.step {w : World} {e : Event} {u v : UpgradeFactorySnapshot} (hp : w.proc = .up u) (hu : QueueOK u)
    (h : Scheduled u) (he : ∀ spawned, e ≠ .nextEntry spawned) (hv : (w.step e).proc = .up v) : Scheduled v := by
  by_cases ho : ∃ ok, e = .orphanExit ok
  · obtain ⟨ok, rfl⟩ := ho
    rw [step_orphanExit, hp] at hv
    cases hv
    exact h
  · push Not at ho
    rw [step_up hp ho] at hv
    exact h.stepUp hu he (stepUp_cases hp e) hv

/-- Run, it launches the first task. -/
theorem Scheduled.launched {w : World} {u : UpgradeFactorySnapshot} (hp : w.proc = .up u) (hu : QueueOK u)
    (h : Scheduled u) : w.launched (.nextEntry true) = deployCmds.take 1 := by
  have hstep : (w.step (.nextEntry true)).proc.children = u.children ++ deployCmds.take 1 := by
    simp [World.step, hp, World.stepUp, h.next, h.unfinished, h.current, hu.tasks, gDeployTasks, deployCmds,
      UpgradeFactorySnapshot.deployTaskQueueNext, DeployTaskQueue.getCurrentTask, UpgradeFactorySnapshot.runAsync,
      UpgradeFactorySnapshot.broadcastStatus, World.resume, Proc.children]
  unfold World.launched
  rw [hstep, hp]
  exact List.drop_left

/-! ## Whole runs -/

variable {store : Store} {orphans : List SnapshotCmd} {es : List Event}

/-- What a `Start` answered TRUE has scheduled stays scheduled until it is run. -/
theorem wAt_scheduled {n m : ℕ} (hn : n < es.length) (hnm : n < m) (hm : m ≤ es.length)
    (ht : (wAt (.rest store orphans) es n).startsTrue es[n] = true)
    (hfin : ∀ u, (wAt (.rest store orphans) es n).proc = .up u → u.deployQueue.finished = false)
    (hup : ∀ k, n < k → k ≤ m → ∃ u, (wAt (.rest store orphans) es k).proc = .up u)
    (hnext : ∀ k (hk : k < es.length), n < k → k < m → ∀ spawned, es[k] ≠ .nextEntry spawned) :
    ∀ u, (wAt (.rest store orphans) es m).proc = .up u → Scheduled u := by
  induction m, hnm using Nat.le_induction with
  | base =>
    intro u hu
    rw [wAt, stateAt_succ (by omega)] at hu
    exact scheduled_start (wAt_queueOK (by omega)) ht hfin hu
  | succ m hnm ih =>
    intro u hu
    obtain ⟨v, hv⟩ := hup m hnm (by omega)
    have hsched := ih (by omega) (fun k hk hkm => hup k hk (by omega))
      (fun k hk hnk hkm => hnext k hk hnk (by omega)) v hv
    rw [wAt, stateAt_succ (by omega)] at hu
    exact hsched.step hv (wAt_up (by omega) hv) (hnext m (by omega) hnm (by omega)) hu

/-- **The service gets stuck exactly by a `Start` on a finished queue.** Over every run in which no
signal comes that is ignored: the service never gets stuck if and only if no `Start` is answered
TRUE after the deploy queue has finished. -/
theorem restarts_iff (hsig : ∀ e ∈ es, e ≠ .quit true) :
    Restarts (.rest store orphans) es ↔
      ∀ n (hn : n < es.length), (wAt (.rest store orphans) es n).startsTrue es[n] = true →
        ∀ u, (wAt (.rest store orphans) es n).proc = .up u → u.deployQueue.finished = false := by
  constructor
  · intro h n hn ht u hp
    by_contra hf
    have hf : u.deployQueue.finished = true := by simpa using hf
    have hsucc : wAt (.rest store orphans) es (n + 1) = (wAt (.rest store orphans) es n).step es[n] := stateAt_succ hn
    obtain ⟨he, v, hv, hrun, hstep⟩ := startsTrue_up ht
    rw [hp] at hv
    cases hv
    rw [← hsucc] at hstep
    -- the callback finds the queue finished
    have hlaunch := h.launches n (n + 1) hn (by omega) (by omega) ht
      (fun k hk hk' => ⟨u.start.2.scheduleQuit, by rw [show k = n + 1 by omega]; exact hstep⟩)
      (fun k _ hk hk' => absurd hk (by omega))
    have hhalt : (wAt (.rest store orphans) es (n + 1)).Halted := by
      unfold World.Halted
      rw [hstep]
      simp only [UpgradeFactorySnapshot.start, hrun]
      exact hf
    rw [hhalt.quiet.launched (wAt_queueOK (by omega))] at hlaunch
    cases hlaunch
  · intro hcond
    refine ⟨fun n hn u hp => ?_, fun n m hn hnm hm ht hup hnext => ?_⟩
    · have h0 : (World.rest store orphans).proc.All QueueOK ∧ (World.rest store orphans).Moving := ⟨trivial, trivial⟩
      have hmove := (stateAt_inv (fun w : World => w.proc.All QueueOK ∧ w.Moving) h0
        (fun k hk h => ⟨step_queueOK _ h.1, h.2.step h.1 (hsig _ (List.getElem_mem hk)) (hcond k hk)⟩) n hn).2
      unfold World.Moving at hmove
      rw [show stateAt World.step (World.rest store orphans) es n = wAt (.rest store orphans) es n from rfl, hp] at hmove
      exact hmove.pending
    · obtain ⟨u, hu⟩ := hup m hnm le_rfl
      have hsched := wAt_scheduled hn hnm hm ht (hcond n hn ht) hup hnext u hu
      exact hsched.launched hu (wAt_up hm hu)

/-- A complete deployment from a device with a factory image, and another `Start`. -/
def secondStart : List Event :=
  [.launch, .start, .nextEntry true, .childExit 0 true, .nextEntry true, .childExit 0 true, .nextEntry true,
    .childExit 0 true, .nextEntry true, .childExit 0 true, .nextEntry true, .childExit 0 true, .nextEntry true,
    .childExit 0 true, .nextEntry true, .childExit 0 true, .nextEntry true, .childExit 0 true, .nextEntry true,
    .delayedFinish, .start, .nextEntry true]

theorem restarts_iff_secondStart :
    Restarts (.rest (Function.update (fun _ => none) .factory (some .complete)) []) secondStart ↔
      ∀ n (hn : n < secondStart.length),
        (wAt (.rest (Function.update (fun _ => none) .factory (some .complete)) []) secondStart n).startsTrue
          secondStart[n] = true →
        ∀ u, (wAt (.rest (Function.update (fun _ => none) .factory (some .complete)) []) secondStart n).proc = .up u →
          u.deployQueue.finished = false :=
  restarts_iff (by decide)

/-- The service after `secondStart`: it runs, and nothing is pending. -/
def stuckUfs : UpgradeFactorySnapshot where
  running := true
  deployQueue := { gDeployQueue with finished := true }
  cleanupQueue := gCleanupQueue
  partitions := ["@", "@home"]
  status := ⟨some "", 100, some "Finishing", 0, 1⟩
  nextEntries := 0
  children := []
  delayedFinishes := 0
  idleTimer := true

/-- **A second deployment is stuck.** Its `Start` is answered TRUE and leaves the service running with nothing
pending. -/
theorem restart_stuck : ¬ ∀ (store : Store) (orphans : List SnapshotCmd) (es : List Event),
    (∀ e ∈ es, e ≠ .quit true) → Restarts (.rest store orphans) es := by
  intro h
  have hmoving := (h (Function.update (fun _ => none) .factory (some .complete)) [] secondStart (by decide)).moving
  have hrun := hmoving secondStart.length le_rfl stuckUfs (by decide) rfl
  cases hrun

end Sfmf

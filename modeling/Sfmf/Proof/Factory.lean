import Sfmf.Proof.Service

/-!
# What the upgrade service does to the factory image

A deploy renames `factory` to `factory-old` and then the new snapshot to
`factory`. Between the two renames only `factory-old` holds a complete image. A
process that is cut there leaves that state to the next one, whose first delete
of `factory-old` (task 3) then removes the last image.

* `StoreOK`: which snapshots are complete after how many tasks of a deploy.
* `factory_kept_iff`: the image is kept in every state of a run exactly when no
  run deletes `factory-old` by task 3 while there is no `factory`.
* `factory_lost`: a run of the service that loses every image.
-/

namespace Sfmf

/-- A complete factory image is present under one of its two names. -/
def HasFactory (s : Store) : Prop :=
  s .factory = some .complete ∨ s .factoryOld = some .complete

instance (s : Store) : Decidable (HasFactory s) := by unfold HasFactory; infer_instance

/-- A run of the service starts with a complete `factory` and no process. -/
structure World.Start (w : World) : Prop where
  factory : w.store .factory = some .complete
  off : w.proc = .off
  orphans : w.orphans = []

/-- Signals and exits from outside come between two tasks only. -/
def Event.BetweenTasks (w : World) : Event → Prop
  | .quit _ => w.proc.children = []
  | _ => True

instance (w : World) (e : Event) : Decidable (e.BetweenTasks w) := by
  unfold Event.BetweenTasks; split <;> infer_instance

/-- A run from a complete `factory`: any number of processes one after another, each
ended by its last task, by the failure of a task, or between two tasks. -/
structure FactoryRun (w : World) (es : List Event) : Prop where
  start : w.Start
  between : ∀ n (hn : n < es.length), es[n].BetweenTasks (wAt w es n)

/-- Task 3, the first delete of `factory-old`, succeeds in a process that has no `factory`. -/
def Event.DropsOld (w : World) (e : Event) : Prop :=
  e = .childExit 0 true ∧ w.store .factory = none ∧
    ∃ u, w.proc = .up u ∧ u.children ≠ [] ∧ u.deployQueue.current = 3

/-! ## Commands -/

@[simp] theorem SnapshotCmd.run_list (ok : Bool) (s : Store) : (SnapshotCmd.list.run ok s).2 = s := by
  cases ok <;> rfl

/-- A delete leaves the other snapshots alone. -/
theorem SnapshotCmd.run_delete_ne {x y : SnapshotName} (h : y ≠ x) (ok : Bool) (s : Store) :
    ((SnapshotCmd.delete x).run ok s).2 y = s y := by
  cases ok
  · rfl
  · by_cases hx : s x = none <;> simp [run, exec, hx, Function.update_of_ne h]

theorem SnapshotCmd.run_delete_true {x : SnapshotName} {s : Store} (h : s x ≠ none) :
    ((SnapshotCmd.delete x).run true s).2 x = none := by
  simp [run, exec, h]

/-- A deploy that succeeds leaves a complete snapshot. -/
theorem SnapshotCmd.run_deploy {x : SnapshotName} {ok : Bool} {s : Store}
    (h : ((SnapshotCmd.deploy x).run ok s).1 = true) :
    ((SnapshotCmd.deploy x).run ok s).2 = Function.update s x (some .complete) := by
  cases ok
  · simp [run] at h
  · rfl

theorem SnapshotCmd.run_fail {c : SnapshotCmd} {ok : Bool} {s : Store} (h : (c.run ok s).1 = false) :
    (c.run ok s).2 = s := by
  cases ok
  · rfl
  · cases he : c.exec s with
    | none => simp [run, he]
    | some s' => simp [run, he] at h

/-- A rename that succeeds moves the snapshot to a name that was free. -/
theorem SnapshotCmd.run_rename {a b : SnapshotName} {ok : Bool} {s : Store}
    (h : ((SnapshotCmd.rename a b).run ok s).1 = true) :
    ∃ i, s a = some i ∧ s b = none ∧
      ((SnapshotCmd.rename a b).run ok s).2 = Function.update (Function.update s a none) b (some i) := by
  cases ok
  · simp [run] at h
  · simp only [run, exec, if_true] at h ⊢
    cases ha : s a with
    | none => simp [ha] at h
    | some i =>
      by_cases hb : s b = none
      · exact ⟨i, rfl, hb, by simp [hb]⟩
      · simp [ha, hb] at h

/-- The number of tasks of the deploy queue that have ended in this process. -/
def UpgradeFactorySnapshot.tasksDone (u : UpgradeFactorySnapshot) : ℤ :=
  if u.deployQueue.finished then 0
  else if u.children = [] then u.deployQueue.current + 1 else u.deployQueue.current

/-! ## The snapshots during a deploy -/

/-- **The snapshots after `k` tasks of a deploy.** Up to the first rename the image
may also be under the old name alone; between the renames it is; afterwards it is
under `factory`. -/
structure StoreOK (s : Store) (k : ℤ) : Prop where
  held : k ≤ 4 → s .factory = some .complete ∨
    (s .factory = none ∧ s .factoryOld = some .complete)
  tmp : 3 ≤ k → k ≤ 5 → s .factorySlipstreamTmp = some .complete
  moved : k = 5 → s .factory = none ∧ s .factoryOld = some .complete
  renewed : 6 ≤ k → s .factory = some .complete

/-- Wherever a deploy stops, it leaves the image under one name. -/
theorem StoreOK.rest {s : Store} {k : ℤ} (h : StoreOK s k) : StoreOK s 0 := by
  refine ⟨fun _ => ?_, by omega, by omega, by omega⟩
  rcases lt_or_ge 4 k with h4 | h4
  · rcases eq_or_lt_of_le (show 5 ≤ k by omega) with h5 | h5
    · exact .inr (h.moved h5.symm)
    · exact .inl (h.renewed (by omega))
  · exact h.held h4

theorem StoreOK.hasFactory {s : Store} {k : ℤ} (h : StoreOK s k) : HasFactory s := by
  rcases h.rest.held (by omega) with h | h
  · exact .inl h
  · exact .inr h.2

/-- Deleting the temporary snapshot keeps the image. -/
theorem StoreOK.delete_tmp {s : Store} (h : StoreOK s 0) (ok : Bool) :
    StoreOK ((SnapshotCmd.delete .factorySlipstreamTmp).run ok s).2 0 := by
  refine ⟨fun hk => ?_, by omega, by omega, by omega⟩
  rw [SnapshotCmd.run_delete_ne (by decide), SnapshotCmd.run_delete_ne (by decide)]
  exact h.held hk

/-- **One task of a deploy.** From the snapshots after `k` tasks, task `k` leads to
those after `k + 1`, unless it is checked and failed, or it is task 3 and drops
`factory-old` while there is no `factory`. -/
theorem storeOK_task {s : Store} {k : ℤ} {task : DeployTask} {c : SnapshotCmd} {ok : Bool}
    (hk : 0 ≤ k) (htask : gDeployTasks[k.toNat]? = some task) (hc : task.cmd = some c)
    (hs : StoreOK s k) (hdrop : ¬ (k = 3 ∧ ok = true ∧ s .factory = none))
    (hchk : (c.run ok s).1 = true ∨ task.checked = false) : StoreOK (c.run ok s).2 (k + 1) := by
  obtain ⟨n, rfl⟩ := Int.eq_ofNat_of_zero_le hk
  have hn : n < 8 := by
    by_contra h
    push Not at h
    rcases eq_or_lt_of_le h with h | h
    · subst h; simp [gDeployTasks] at htask; subst htask; simp at hc
    · rw [List.getElem?_eq_none (by simp [gDeployTasks]; omega)] at htask; simp at htask
  simp only [Int.toNat_natCast] at htask
  -- one case for each of the eight tasks
  interval_cases n <;> simp [gDeployTasks] at htask <;> subst htask <;> simp at hc <;> subst hc
  · -- list
    simpa using ⟨fun _ => hs.held (by omega), by omega, by omega, by omega⟩
  · -- delete the temporary snapshot
    exact ⟨fun _ => (hs.rest.delete_tmp ok).held (by omega), by omega, by omega, by omega⟩
  · -- deploy
    have h := hchk.resolve_right (by simp)
    rw [SnapshotCmd.run_deploy h]
    exact ⟨fun _ => by simpa using hs.held (by omega), by simp, by omega, by omega⟩
  · -- the first delete of `factory-old`
    refine ⟨fun _ => ?_, fun _ _ => ?_, by omega, by omega⟩
    · rw [SnapshotCmd.run_delete_ne (by decide)]
      rcases hs.held (by omega) with h | h
      · exact .inl h
      · have hok : ok = false := by
          by_contra hne
          exact hdrop ⟨rfl, by simpa using hne, h.1⟩
        subst hok; exact .inr h
    · rw [SnapshotCmd.run_delete_ne (by decide)]; exact hs.tmp (by omega) (by omega)
  · -- rename `factory`
    have h := hchk.resolve_right (by simp)
    obtain ⟨i, hi, -, hr⟩ := SnapshotCmd.run_rename h
    have hi' : i = .complete := by
      rcases hs.held (by omega) with h | h
      · rw [hi] at h; simpa using h
      · rw [hi] at h; simp at h
    subst hi'
    rw [hr]
    exact ⟨by omega, fun _ _ => by simpa using hs.tmp (by omega) (by omega), fun _ => by simp, by omega⟩
  · -- rename the new snapshot
    have h := hchk.resolve_right (by simp)
    obtain ⟨i, hi, -, hr⟩ := SnapshotCmd.run_rename h
    rw [hs.tmp (by omega) (by omega)] at hi
    rw [hr]
    exact ⟨by omega, by omega, by omega, fun _ => by simpa using hi.symm⟩
  · -- the second delete of `factory-old`
    refine ⟨by omega, by omega, by omega, fun _ => ?_⟩
    rw [SnapshotCmd.run_delete_ne (by decide)]; exact hs.renewed (by omega)
  · -- list
    simpa using ⟨by omega, by omega, by omega, fun _ => hs.renewed (by omega)⟩

/-! ## Whole runs -/

/-- A process in its main loop: the queue goes on only while it is not finished. -/
structure UpOK (s : Store) (u : UpgradeFactorySnapshot) : Prop where
  queue : QueueOK u
  halted : u.deployQueue.finished = true → u.children = []
  store : StoreOK s u.tasksDone

/-- A process in its cleanup: no deploy task runs, or will run. -/
structure ExitingOK (s : Store) (u : UpgradeFactorySnapshot) : Prop where
  queue : QueueOK u
  halted : u.deployQueue.finished = true
  quiet : u.children = []
  store : StoreOK s 0

/-- **The invariant of the world.** -/
def WorldOK (w : World) : Prop :=
  w.orphans = [] ∧
  match w.proc with
  | .off => StoreOK w.store 0
  | .up u => UpOK w.store u
  | .exiting u _ => ExitingOK w.store u

theorem WorldOK.hasFactory {w : World} (h : WorldOK w) : HasFactory w.store := by
  obtain ⟨-, h⟩ := h
  cases hp : w.proc with
  | off => rw [hp] at h; exact h.hasFactory
  | up u => rw [hp] at h; exact h.store.hasFactory
  | exiting u ignored => rw [hp] at h; exact h.store.hasFactory

theorem worldOK_start {w : World} (h : w.Start) : WorldOK w := by
  refine ⟨h.orphans, ?_⟩
  rw [h.off]
  exact ⟨fun _ => .inl h.factory, by omega, by omega, by omega⟩

/-- An aborted queue asks nothing more of the snapshots. -/
theorem ExitingOK.up {s : Store} {u : UpgradeFactorySnapshot} (h : ExitingOK s u) : UpOK s u := by
  refine ⟨h.queue, fun _ => h.quiet, ?_⟩
  rw [UpgradeFactorySnapshot.tasksDone, if_pos h.halted]
  exact h.store

/-- Leaving the main loop between two tasks. -/
theorem exit_ok {w : World} {u : UpgradeFactorySnapshot} {ignored : Bool} (ho : w.orphans = []) (hu : QueueOK u)
    (hc : u.children = []) (hs : StoreOK w.store 0) : WorldOK (w.exit u ignored) :=
  ⟨ho, hu.abort, rfl, hc, hs⟩

/-- A deploy task launched, or the queue finished. -/
theorem next_ok {s : Store} {u u' : UpgradeFactorySnapshot} {spawned : Bool} (hu : QueueOK u)
    (hs : StoreOK s u.tasksDone) (hn : u.nextEntries ≠ 0)
    (h : { u with nextEntries := u.nextEntries - 1 }.deployTaskQueueNext spawned = .ok u') : UpOK s u' := by
  have hq := queueOK_next hu hn h
  obtain ⟨-, hchild, -, -⟩ := hu.scheduled hn
  rcases deployTaskQueueNext_cases h with ⟨_, rfl⟩ | ⟨hfin, task, c, st, ht, h0, hc, rfl⟩ | ⟨hfin, task, ht, hc, rfl⟩
  · exact ⟨hq, fun _ => hchild, hs⟩
  · dsimp only at hfin
    have hdone : u.tasksDone = u.deployQueue.current + 1 := by
      simp [UpgradeFactorySnapshot.tasksDone, hfin, hchild]
    rw [hdone] at hs
    refine ⟨hq, fun hf => ?_, ?_⟩
    · exact absurd hf (by simp [hfin])
    · simpa [UpgradeFactorySnapshot.tasksDone, hfin] using hs
  · refine ⟨hq, fun _ => hchild, ?_⟩
    simpa [UpgradeFactorySnapshot.tasksDone] using hs.rest

/-- The child that runs and its task, after `k` tasks of a deploy. -/
structure Running (s : Store) (u : UpgradeFactorySnapshot) (i : ℕ) (c : SnapshotCmd) (task : DeployTask) : Prop where
  unfinished : u.deployQueue.finished = false
  alone : u.children.eraseIdx i = []
  current : 0 ≤ u.deployQueue.current
  entry : gDeployTasks[u.deployQueue.current.toNat]? = some task
  cmd : task.cmd = some c
  store : StoreOK s u.deployQueue.current

theorem UpOK.running {s : Store} {u : UpgradeFactorySnapshot} (hu : UpOK s u) {i : ℕ} {c : SnapshotCmd}
    (hc : u.children[i]? = some c) : ∃ task, Running s u i c task := by
  obtain ⟨hq, hhalt, hs⟩ := hu
  obtain ⟨rfl, hchild, -, -⟩ := hq.single hc
  obtain ⟨h0, task, ht, htc⟩ := hq.task (by rw [hchild]; exact List.mem_singleton_self c)
  have hfin : u.deployQueue.finished = false := by
    by_contra hf
    rw [hhalt (by simpa using hf)] at hchild
    simp at hchild
  have hdone : u.tasksDone = u.deployQueue.current := by
    simp [UpgradeFactorySnapshot.tasksDone, hfin, hchild]
  rw [hdone] at hs
  exact ⟨task, hfin, by rw [hchild]; rfl, h0, ht, htc, hs⟩

/-- The exit of the child, and the queue goes on: the snapshots have moved on by one task. -/
theorem childDone_ok {s : Store} {u u' : UpgradeFactorySnapshot} {i : ℕ} {c : SnapshotCmd} {ok : Bool} (hu : UpOK s u)
    (hc : u.children[i]? = some c) (hd : ¬ (u.deployQueue.current = 3 ∧ ok = true ∧ s .factory = none))
    (hdone : { u with children := u.children.eraseIdx i }.onSubprocessFinishedCb (c.run ok s).1 = .ok u') :
    UpOK (c.run ok s).2 u' := by
  obtain ⟨task, hrun⟩ := hu.running hc
  have hq' := queueOK_childExit hu.queue hc hdone
  obtain ⟨task', st, ht', -, hchk, rfl⟩ := onSubprocessFinishedCb_cases hdone
  dsimp only at ht'
  rw [hu.queue.tasks, hrun.entry, Option.some.injEq] at ht'
  subst ht'
  refine ⟨hq', fun _ => hrun.alone, ?_⟩
  simpa [UpgradeFactorySnapshot.tasksDone, hrun.unfinished, hrun.alone] using
    storeOK_task hrun.current hrun.entry hrun.cmd hrun.store hd hchk

/-- The exit of the child, and the process ends: a checked task has failed, and nothing has changed. -/
theorem childFails_ok {s : Store} {u : UpgradeFactorySnapshot} {i : ℕ} {c : SnapshotCmd} {ok : Bool} {x : Stop}
    (hu : UpOK s u) (hc : u.children[i]? = some c)
    (hfail : { u with children := u.children.eraseIdx i }.onSubprocessFinishedCb (c.run ok s).1 = .error x) :
    StoreOK (c.run ok s).2 0 := by
  obtain ⟨task, hrun⟩ := hu.running hc
  have hcur : ({ u with children := u.children.eraseIdx i } : UpgradeFactorySnapshot).deployQueue.getCurrentTask =
      some task := by
    rw [DeployTaskQueue.getCurrentTask, if_pos hrun.current, hu.queue.tasks, hrun.entry]
  obtain ⟨st, hst⟩ := broadcastStatus_some hcur "" 100 "Finishing"
  have hf : (c.run ok s).1 = false := by
    by_contra hok
    simp [UpgradeFactorySnapshot.onSubprocessFinishedCb, hcur, deployTaskHandleExitStatus, hok, hst, ok_bind] at hfail
  rw [SnapshotCmd.run_fail hf]
  exact hrun.store.rest

/-- **One event at a process in its main loop.** -/
theorem World.UpStep.ok {w w' : World} {u : UpgradeFactorySnapshot} {e : Event} (h : w.UpStep u e w')
    (hp : w.proc = .up u) (hw : WorldOK w) (hb : e.BetweenTasks w) (hd : ¬ e.DropsOld w) : WorldOK w' := by
  obtain ⟨ho, hu⟩ := hw
  rw [hp] at hu
  have hq := hu.queue
  cases h with
  | kept => exact ⟨ho, hq.congr rfl, hu.halted, hu.store⟩
  | started hrun =>
    have hq' := queueOK_start hq hrun
    simp only [UpgradeFactorySnapshot.start, hrun] at hq' ⊢
    exact ⟨ho, hq', hu.halted, hu.store⟩
  | next hn hnext => exact ⟨ho, next_ok hq hu.store hn hnext⟩
  | nextFails hn =>
    exact exit_ok ho (hq.without (Nat.sub_le _ _) (List.Sublist.refl _)) (hq.scheduled hn).2.1 hu.store.rest
  | childDone hc hdone =>
    refine ⟨ho, childDone_ok hu hc ?_ hdone⟩
    obtain ⟨rfl, hchild, -, -⟩ := hq.single hc
    rintro ⟨h3, rfl, hf⟩
    exact hd ⟨rfl, hf, u, hp, by simp [hchild], h3⟩
  | childFails hc hfail =>
    obtain ⟨task, hrun⟩ := hu.running hc
    exact exit_ok ho (hq.without le_rfl (List.eraseIdx_sublist _ _)) hrun.alone (childFails_ok hu hc hfail)
  | finished hn => exact ⟨ho, queueOK_finish hq hn, hu.halted, hu.store⟩
  | left ignored _ hcause =>
    refine exit_ok ho hq ?_ hu.store.rest
    rcases hcause with rfl | ⟨-, hrun | hnone⟩
    · have hc : w.proc.children = [] := hb
      rwa [hp] at hc
    · have hidle := hq.idle hrun
      unfold UpgradeFactorySnapshot.pending at hidle
      exact List.eq_nil_of_length_eq_zero (by omega)
    · -- while a child runs there is a current task
      by_contra hc
      obtain ⟨c, hc⟩ := List.exists_mem_of_ne_nil _ hc
      obtain ⟨task, ht⟩ := hq.getCurrentTask (hq.task hc).1
      rw [hnone] at ht
      cases ht

/-- The process of a cleanup that ends between two tasks leaves no command behind. -/
theorem gone_ok {w : World} {u : UpgradeFactorySnapshot} (ho : w.orphans = []) (hc : u.children = [])
    (hs : StoreOK w.store 0) : WorldOK (w.gone u) :=
  ⟨by simp [World.gone, hc, ho], hs⟩

theorem cleaned_ok {w : World} {u : UpgradeFactorySnapshot} {ignored : Bool} (ho : w.orphans = [])
    (hu : ExitingOK w.store u) : WorldOK (w.cleaned u ignored) := by
  unfold World.cleaned
  split
  · exact ⟨ho, hu.up⟩
  · exact gone_ok ho hu.quiet hu.store

/-- A task of the cleanup deletes the temporary snapshot, at most. -/
theorem storeOK_cleanup {s : Store} {task : DeployTask} {c : SnapshotCmd} (ok : Bool) (hs : StoreOK s 0)
    (htask : task ∈ gCleanupTasks) (hcmd : task.cmd = some c) : StoreOK (c.run ok s).2 0 := by
  simp only [gCleanupTasks, List.mem_cons, List.not_mem_nil, or_false] at htask
  rcases htask with rfl | rfl | rfl <;> simp at hcmd <;> subst hcmd
  · exact hs.delete_tmp ok
  · simpa using hs

/-- **One event at a process in its cleanup**: it only ever deletes the temporary snapshot. -/
theorem World.ExitStep.ok {w w' : World} {u : UpgradeFactorySnapshot} {ignored : Bool} (h : w.ExitStep u ignored w')
    (hp : w.proc = .exiting u ignored) (hw : WorldOK w) : WorldOK w' := by
  have hsame := hw
  obtain ⟨ho, hu⟩ := hw
  rw [hp] at hu
  obtain ⟨hq, hhalt, hc, hs⟩ := hu
  cases h with
  | kept => exact hsame
  | cleaned q hqueue => exact cleaned_ok ho ⟨hq.cleanupAt hqueue, hhalt, hc, hs⟩
  | ran q hqueue ok htask hcmd =>
    rw [hq.cleanup] at htask
    exact ⟨ho, hq.cleanupAt hqueue, hhalt, hc, storeOK_cleanup ok hs htask hcmd⟩
  | gone => exact gone_ok ho hc hs
  | failed ok htask hcmd =>
    rw [hq.cleanup] at htask
    exact gone_ok ho hc (storeOK_cleanup ok hs htask hcmd)
  | childDone ok hchild =>
    rw [hc] at hchild
    cases hchild

/-- **One event keeps the invariant of the world**, unless it drops the last image. -/
theorem step_ok {w : World} {e : Event} (hw : WorldOK w) (hb : e.BetweenTasks w)
    (hd : ¬ e.DropsOld w) : WorldOK (w.step e) := by
  unfold World.step
  split
  · rename_i ok c cs hc
    rw [hw.1] at hc; simp at hc
  · exact hw
  · split
    · split
      · rename_i hoff _
        refine ⟨hw.1, queueOK_init, fun _ => rfl, ?_⟩
        have := hw.2
        rw [hoff] at this
        exact this
      · exact hw
    · rename_i u hp; exact (stepUp_cases hp _).ok hp hw hb hd
    · rename_i u ignored hp; exact (stepExiting_cases w u ignored _).ok hp hw

/-- Dropping `factory-old` while there is no `factory` leaves no image. -/
theorem drop_lost {w : World} {e : Event} (hw : WorldOK w) (hd : e.DropsOld w) :
    ¬ HasFactory (w.step e).store := by
  obtain ⟨rfl, hf, u, hp, hc, h3⟩ := hd
  obtain ⟨c, hc⟩ := List.exists_mem_of_ne_nil _ hc
  obtain ⟨ho, hu⟩ := hw
  rw [hp] at hu
  obtain ⟨hq, -, hs⟩ := hu
  -- the child is the delete of `factory-old`
  obtain ⟨-, task, ht, htc⟩ := hq.task hc
  rw [h3] at ht
  simp [gDeployTasks] at ht
  subst ht
  simp at htc
  subst htc
  have hold : w.store .factoryOld = some .complete := by
    rcases hs.hasFactory with h | h
    · rw [hf] at h; simp at h
    · exact h
  obtain ⟨i, hi⟩ := List.mem_iff_getElem?.1 hc
  obtain ⟨rfl, -, -, -⟩ := hq.single hi
  have hstore : (w.step (.childExit 0 true)).store =
      ((SnapshotCmd.delete .factoryOld).run true w.store).2 := by
    simp only [World.step, hp, World.stepUp, hi, World.resume]
    split <;> rfl
  rw [hstore]
  rintro (h | h)
  · rw [SnapshotCmd.run_delete_ne (by decide), hf] at h; simp at h
  · rw [SnapshotCmd.run_delete_true (by simp [hold])] at h; simp at h

/-! ## When an image is kept -/

variable {w : World} {es : List Event}

/-- **The factory image is kept exactly as long as task 3 never drops the last one.**
From a complete `factory`, over any number of processes, failures of any task and
exits between tasks: an image is present in every state of the run if and only if
at no point of it the first delete of `factory-old` succeeds while there is no
`factory`. -/
theorem factory_kept_iff (h : FactoryRun w es) :
    (∀ n, n ≤ es.length → HasFactory (wAt w es n).store) ↔
      ∀ n (hn : n < es.length), ¬ es[n].DropsOld (wAt w es n) := by
  constructor
  · intro hkept n
    -- up to the first drop the invariant holds, so the drop loses the image
    induction n using Nat.strong_induction_on with
    | _ n ih =>
      intro hn hdrop
      have hok : ∀ m, m ≤ n → WorldOK (wAt w es m) := by
        intro m
        induction m with
        | zero => intro _; simpa [wAt] using worldOK_start h.start
        | succ m ihm =>
          intro hm
          rw [wAt, stateAt_succ (by omega)]
          exact step_ok (ihm (by omega)) (h.between m (by omega)) (ih m (by omega) (by omega))
      have hlost := drop_lost (hok n le_rfl) hdrop
      have hsucc : wAt w es (n + 1) = World.step (wAt w es n) es[n] := stateAt_succ hn
      rw [← hsucc] at hlost
      exact hlost (hkept (n + 1) hn)
  · intro hd n hn
    exact (stateAt_inv WorldOK (worldOK_start h.start)
      (fun m hm hw => step_ok hw (h.between m hm) (hd m hm)) n hn).hasFactory

/-- A device with the factory image only. -/
def freshWorld : World := ⟨fun x => if x = .factory then some .complete else none, .off, []⟩

/-- A deploy that is ended by a signal between the two renames, and the next one. -/
def lossRun : List Event :=
  [.launch, .start, .nextEntry true, .childExit 0 true, .nextEntry true, .childExit 0 false,
    .nextEntry true, .childExit 0 true, .nextEntry true, .childExit 0 false, .nextEntry true, .childExit 0 true,
    .quit false, .cleanup true, .cleanup true, .cleanup true,
    .launch, .start, .nextEntry true, .childExit 0 true, .nextEntry true, .childExit 0 false,
    .nextEntry true, .childExit 0 true, .nextEntry true, .childExit 0 true, .nextEntry true, .childExit 0 true,
    .cleanup true, .cleanup true, .cleanup true]

theorem lossRun_run : FactoryRun freshWorld lossRun := ⟨⟨rfl, rfl, rfl⟩, by decide⟩

theorem factory_kept_iff_lossRun :
    (∀ n, n ≤ lossRun.length → HasFactory (wAt freshWorld lossRun n).store) ↔
      ∀ n (hn : n < lossRun.length), ¬ lossRun[n].DropsOld (wAt freshWorld lossRun n) :=
  factory_kept_iff ⟨⟨rfl, rfl, rfl⟩, by decide⟩

/-- At the end of `lossRun` there is no snapshot at all. -/
theorem lossRun_empty : ∀ x, (wAt freshWorld lossRun lossRun.length).store x = none := by
  intro x; cases x <;> decide

/-- **The image can be lost.** The second process of `lossRun` deletes `factory-old`
when it is the only image, cannot rename the absent `factory`, and its cleanup
deletes the new snapshot too: no snapshot is left. -/
theorem factory_lost : ¬ ∀ w es, FactoryRun w es → ∀ n, n ≤ es.length → HasFactory (wAt w es n).store := by
  intro h
  rcases h freshWorld lossRun lossRun_run lossRun.length le_rfl with h | h <;>
    rw [lossRun_empty] at h <;> simp at h

end Sfmf

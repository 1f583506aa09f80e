import Sfmf.Proof.Service

/-!
# Deploy tasks run one at a time and in order

* `step_moves`: what an event does to the deploy queue. It starts a deployment,
  launches the next task, or leaves the queue where it is or finished.
* `launchedSince`: the commands launched since the last `Start` answered TRUE.
* `DeploysInOrder`, `deploys_in_order`: in every run there is one child at most, the
  commands come in the order of `g_deploy_tasks`, and none comes after the failure of
  a checked task or after the start of the cleanup.
-/

namespace Sfmf

/-! ## What an event does to the deploy queue -/

/-- The commands that an event launches. A new child is appended to those being watched. -/
def World.launched (w : World) (e : Event) : List SnapshotCmd :=
  (w.step e).proc.children.drop w.proc.children.length

/-- The event is a `Start` answered TRUE. -/
def World.startsTrue (w : World) : Event → Bool
  | .start => match w.proc with
    | .up u => u.start.1
    | _ => false
  | _ => false

/-- A `Start` is answered TRUE by a service that does not run. -/
theorem startsTrue_up {w : World} {e : Event} (h : w.startsTrue e = true) :
    e = .start ∧ ∃ u, w.proc = .up u ∧ u.running = false ∧ (w.step e).proc = .up u.start.2.scheduleQuit := by
  cases e with
  | start =>
    cases hp : w.proc with
    | up u =>
      refine ⟨rfl, u, rfl, ?_, by simp only [World.step, hp, World.stepUp]⟩
      by_contra hr
      have hr : u.running = true := by simpa using hr
      simp [World.startsTrue, hp, UpgradeFactorySnapshot.start, hr] at h
    | off => simp [World.startsTrue, hp] at h
    | exiting u ignored => simp [World.startsTrue, hp] at h
  | _ => cases h

/-- The event makes the bus start a new process. -/
def World.activates (w : World) (e : Event) : Prop := w.proc = .off ∧ e = .launch

/-- The commands of the deploy queue. -/
def deployCmds : List SnapshotCmd := gDeployTasks.filterMap DeployTask.cmd

/-- The process with task `current + 1` launched. -/
def UpgradeFactorySnapshot.withNext (u : UpgradeFactorySnapshot) (st : UpgradeStatus) (c : SnapshotCmd) :
    UpgradeFactorySnapshot :=
  { u with nextEntries := u.nextEntries - 1,
           deployQueue := { u.deployQueue with current := u.deployQueue.current + 1 },
           status := st, children := [c] }

/-- **What an event does to the deploy queue.** -/
inductive World.Moves (w : World) (e : Event) : Prop where
  | activated (h : w.activates e) (hstep : (w.step e).proc = .up gUfs)
  | started (u : UpgradeFactorySnapshot) (hp : w.proc = .up u) (hrun : u.running = false)
      (htrue : w.startsTrue e = true) (hstep : (w.step e).proc = .up u.start.2.scheduleQuit)
  | launched (u : UpgradeFactorySnapshot) (st : UpgradeStatus) (c : SnapshotCmd) (hp : w.proc = .up u)
      (hnext : u.nextEntries ≠ 0) (hfin : u.deployQueue.finished = false)
      (hcmd : deployCmds[(u.deployQueue.current + 1).toNat]? = some c)
      (hstep : (w.step e).proc = .up (u.withNext st c)) (hlaunch : w.launched e = [c])
  | kept (hlaunch : w.launched e = []) (hfalse : w.startsTrue e = false)
      (hqueue : ∀ u', (w.step e).proc.service = some u' → ∃ u, w.proc.service = some u ∧
        (u'.running = true → u.running = true) ∧
        (u'.deployQueue.finished = false → u'.deployQueue = u.deployQueue))

/-- The commands of the deploy queue are those of its tasks before the terminator. -/
theorem deployCmds_getElem? {k : ℕ} {task : DeployTask} {c : SnapshotCmd} (ht : gDeployTasks[k]? = some task)
    (hc : task.cmd = some c) : deployCmds[k]? = some c := by
  have hall : ∀ k < gDeployTasks.length, gDeployTasks[k]?.bind DeployTask.cmd = deployCmds[k]? := by decide
  rw [← hall k (List.getElem?_eq_some_iff.1 ht).1, ht, Option.bind_some, hc]

/-- No child is added, so none is launched. -/
theorem launched_nil {w : World} {e : Event} (h : (w.step e).proc.children.length ≤ w.proc.children.length) :
    w.launched e = [] := List.drop_eq_nil_of_le h

/-- An event that leaves the children and the queue alone, but for finishing it. -/
theorem World.Moves.same {w : World} {e : Event} (hfalse : w.startsTrue e = false)
    (h : ∀ u', (w.step e).proc.service = some u' → ∃ u, w.proc.service = some u ∧
      (u'.running = true → u.running = true) ∧ (u'.deployQueue.finished = false → u'.deployQueue = u.deployQueue) ∧
      u'.children.length ≤ u.children.length) : w.Moves e := by
  refine .kept (launched_nil ?_) hfalse fun u' hu' => ?_
  · cases hp : (w.step e).proc.service with
    | none =>
      have hoff : (w.step e).proc.children = [] := by
        cases hq : (w.step e).proc with
        | off => rfl
        | up v => rw [hq] at hp; cases hp
        | exiting v ignored => rw [hq] at hp; cases hp
      rw [hoff]
      exact Nat.zero_le _
    | some u' =>
      obtain ⟨u, hu, -, -, hlen⟩ := h u' hp
      rw [Proc.children_service hp, Proc.children_service hu]
      exact hlen
  · obtain ⟨u, hu, h1, h2, -⟩ := h u' hu'
    exact ⟨u, hu, h1, h2⟩

/-- The same, from the main loop. -/
theorem World.Moves.same_up {w w' : World} {u v : UpgradeFactorySnapshot} {e : Event} (hp : w.proc = .up u)
    (hstep : w.step e = w') (hv : w'.proc.service = some v) (hfalse : w.startsTrue e = false)
    (hrun : v.running = true → u.running = true) (hqueue : v.deployQueue.finished = false → v.deployQueue = u.deployQueue)
    (hlen : v.children.length ≤ u.children.length) : w.Moves e := by
  refine .same hfalse fun u' hu' => ⟨u, by rw [hp]; rfl, ?_⟩
  rw [hstep, hv] at hu'
  cases hu'
  exact ⟨hrun, hqueue, hlen⟩

/-- **One event at a process in its main loop.** -/
theorem World.UpStep.moves {w w' : World} {u : UpgradeFactorySnapshot} {e : Event} (h : w.UpStep u e w')
    (hp : w.proc = .up u) (hu : QueueOK u) (hstep : w.step e = w') : w.Moves e := by
  cases h with
  | kept st timer hstart =>
    refine .same_up hp hstep rfl ?_ id (fun _ => rfl) le_rfl
    cases e with
    | start => simp [World.startsTrue, hp, UpgradeFactorySnapshot.start, hstart rfl]
    | _ => rfl
  | started hrun =>
    exact .started u hp hrun (by simp [World.startsTrue, hp, UpgradeFactorySnapshot.start, hrun]) (by rw [hstep])
  | next hn hnext =>
    obtain ⟨-, hchild, -, -⟩ := hu.scheduled hn
    rcases deployTaskQueueNext_cases hnext with ⟨hfin, rfl⟩ | ⟨hfin, task, c, st, ht, h0, hc, rfl⟩ |
      ⟨hfin, task, ht, hc, rfl⟩
    · exact .same_up hp hstep rfl rfl id (fun _ => rfl) le_rfl
    · rw [hu.tasks] at ht
      refine .launched u st c hp hn hfin (deployCmds_getElem? ht hc) ?_ ?_
      · rw [hstep]
        simp only [UpgradeFactorySnapshot.withNext, hchild, List.nil_append]
      · unfold World.launched
        rw [hstep, hp]
        simp [Proc.children, hchild]
    · exact .same_up hp hstep rfl rfl id (fun hf => Bool.noConfusion hf) le_rfl
  | nextFails hn => exact .same_up hp hstep rfl rfl id (fun hf => Bool.noConfusion hf) le_rfl
  | childDone hc hdone =>
    obtain ⟨_, st, -, -, -, rfl⟩ := onSubprocessFinishedCb_cases hdone
    exact .same_up hp hstep rfl rfl id (fun _ => rfl) (List.eraseIdx_sublist _ _).length_le
  | childFails hc =>
    exact .same_up hp hstep rfl rfl id (fun hf => Bool.noConfusion hf) (List.eraseIdx_sublist _ _).length_le
  | finished hn => exact .same_up hp hstep rfl rfl (fun hrun => Bool.noConfusion hrun) (fun _ => rfl) le_rfl
  | left ignored he =>
    refine .same_up hp hstep rfl ?_ id (fun hf => Bool.noConfusion hf) le_rfl
    cases e with
    | start => exact absurd rfl he
    | _ => rfl

/-- **One event at a process in its cleanup** launches nothing. -/
theorem World.ExitStep.moves {w w' : World} {u : UpgradeFactorySnapshot} {ignored : Bool} {e : Event}
    (h : w.ExitStep u ignored w') (hp : w.proc = .exiting u ignored) (hstep : w.step e = w') : w.Moves e := by
  have hfalse : w.startsTrue e = false := by
    cases e <;> simp [World.startsTrue, hp]
  refine .same hfalse fun u' hu' => ⟨u, by rw [hp]; rfl, ?_⟩
  rw [hstep] at hu'
  cases h with
  | kept =>
    rw [hp] at hu'
    cases hu'
    exact ⟨id, fun _ => rfl, le_rfl⟩
  | cleaned q =>
    unfold World.cleaned at hu'
    split at hu' <;> cases hu'
    exact ⟨id, fun _ => rfl, le_rfl⟩
  | ran q =>
    cases hu'
    exact ⟨id, fun _ => rfl, le_rfl⟩
  | gone => cases hu'
  | failed => cases hu'
  | childDone =>
    cases hu'
    exact ⟨id, fun _ => rfl, (List.eraseIdx_sublist _ _).length_le⟩

/-- **One event of the world.** -/
theorem step_moves {w : World} (e : Event) (hw : w.proc.All QueueOK) : w.Moves e := by
  by_cases ho : ∃ ok, e = .orphanExit ok
  · obtain ⟨ok, rfl⟩ := ho
    refine .same rfl fun u' hu' => ?_
    rw [step_orphanExit] at hu'
    exact ⟨u', hu', id, fun _ => rfl, le_rfl⟩
  · push Not at ho
    cases hp : w.proc with
    | off =>
      by_cases he : e = .launch
      · subst he
        exact .activated ⟨hp, rfl⟩ (by simp [World.step, hp])
      · have hfalse : w.startsTrue e = false := by
          cases e <;> simp [World.startsTrue, hp]
        refine .same hfalse fun u' hu' => ?_
        rw [step_off hp he] at hu'
        cases hu'
    | up u => exact (stepUp_cases hp e).moves hp (hw.service (by rw [hp]; rfl)) (step_up hp ho)
    | exiting u ignored => exact (stepExiting_cases w u ignored e).moves hp (step_exiting hp ho)

/-! ## Whole runs -/

/-- The deploy queue of the process, if there is one, launches nothing any more. -/
def World.Halted (w : World) : Prop := w.proc.All fun u => u.deployQueue.finished = true

/-- It launches nothing before the next `Start`. -/
def World.Quiet (w : World) : Prop := w.proc.All fun u => u.running = true → u.deployQueue.finished = true

theorem World.Halted.quiet {w : World} (h : w.Halted) : w.Quiet :=
  Proc.all_service.2 fun _ hu _ => h.service hu

/-- A halted queue stays halted until the bus starts a new process. -/
theorem World.Halted.step {w : World} {e : Event} (hw : w.proc.All QueueOK) (h : w.Halted) (he : ¬ w.activates e) :
    (w.step e).Halted := by
  refine Proc.all_service.2 fun u' hu' => ?_
  cases step_moves e hw with
  | activated h0 => exact absurd h0 he
  | started u hp _ _ hstep =>
    rw [hstep] at hu'
    cases hu'
    have hfin : u.deployQueue.finished = true := h.service (by rw [hp]; rfl)
    unfold UpgradeFactorySnapshot.start
    split <;> exact hfin
  | launched u st c hp hnext hfin =>
    have hfin' : u.deployQueue.finished = true := h.service (by rw [hp]; rfl)
    exact absurd (hfin.symm.trans hfin') (by decide)
  | kept _ _ hqueue =>
    obtain ⟨u, hu, -, hq⟩ := hqueue u' hu'
    by_contra hf
    have hf : u'.deployQueue.finished = false := by simpa using hf
    rw [hq hf, h.service hu] at hf
    cases hf

/-- A callback of a quiet queue that is scheduled finds the queue finished. -/
theorem World.Quiet.scheduled_finished {w : World} {u : UpgradeFactorySnapshot} (h : w.Quiet) (hw : w.proc.All QueueOK)
    (hp : w.proc = .up u) (hnext : u.nextEntries ≠ 0) : u.deployQueue.finished = true := by
  have hu : w.proc.service = some u := by rw [hp]; rfl
  have hqueue : QueueOK u := hw.service hu
  exact h.service hu (hqueue.scheduled hnext).2.2.2

/-- A quiet queue stays quiet until a `Start` is answered TRUE. -/
theorem World.Quiet.step {w : World} {e : Event} (hw : w.proc.All QueueOK) (h : w.Quiet)
    (he : w.startsTrue e = false) : (w.step e).Quiet := by
  refine Proc.all_service.2 fun u' hu' hrun => ?_
  cases step_moves e hw with
  | activated _ hstep =>
    rw [hstep] at hu'
    cases hu'
    cases hrun
  | started u _ _ htrue => exact absurd (htrue.symm.trans he) (by decide)
  | launched u st c hp hnext hfin => exact absurd (h.scheduled_finished hw hp hnext) (by rw [hfin]; decide)
  | kept _ _ hqueue =>
    obtain ⟨u, hu, hr, hq⟩ := hqueue u' hu'
    by_contra hf
    have hf : u'.deployQueue.finished = false := by simpa using hf
    rw [hq hf, h.service hu (hr hrun)] at hf
    cases hf

/-- A quiet queue launches nothing. -/
theorem World.Quiet.launched {w : World} {e : Event} (hw : w.proc.All QueueOK) (h : w.Quiet) :
    w.launched e = [] := by
  cases step_moves e hw with
  | activated _ hstep => exact launched_nil (by rw [hstep]; exact Nat.zero_le _)
  | started u hp _ _ hstep =>
    refine launched_nil (le_of_eq ?_)
    rw [hstep, hp]
    unfold UpgradeFactorySnapshot.start
    split <;> rfl
  | launched u st c hp hnext hfin => exact absurd (h.scheduled_finished hw hp hnext) (by rw [hfin]; decide)
  | kept hlaunch => exact hlaunch

/-- The commands launched since the last `Start` answered TRUE, after `n` events. -/
def launchedSince (w : World) (es : List Event) : ℕ → List SnapshotCmd
  | 0 => []
  | n + 1 =>
    match es[n]? with
    | none => launchedSince w es n
    | some e => if (wAt w es n).startsTrue e then [] else launchedSince w es n ++ (wAt w es n).launched e

/-- What was launched and the queue: up to the current task, while tasks are launched. -/
structure Launched (cmds : List SnapshotCmd) (w : World) : Prop where
  ordered : cmds <+: deployCmds
  current : ∀ u, w.proc.service = some u → u.running = true → u.deployQueue.finished = false →
    cmds = deployCmds.take (u.deployQueue.current + 1).toNat

/-- **One event launches the next command in order, or none, or starts again.** -/
theorem Launched.step {cmds : List SnapshotCmd} {w : World} {e : Event} (hw : w.proc.All QueueOK)
    (h : Launched cmds w) :
    Launched (if w.startsTrue e then [] else cmds ++ w.launched e) (w.step e) := by
  cases step_moves e hw with
  | activated h0 hstep =>
    have hfalse : w.startsTrue e = false := by rw [h0.2]; rfl
    have hnone : w.launched e = [] := launched_nil (by rw [hstep]; exact Nat.zero_le _)
    rw [hfalse, hnone, if_neg (by decide), List.append_nil]
    refine ⟨h.ordered, fun u hu hrun => ?_⟩
    rw [hstep] at hu
    cases hu
    cases hrun
  | started u hp hrun htrue hstep =>
    rw [htrue, if_pos rfl]
    refine ⟨List.nil_prefix, fun v hv _ hfin => ?_⟩
    rw [hstep] at hv
    cases hv
    -- a queue that has not finished is at its start while the service does not run
    have hu : QueueOK u := hw.service (by rw [hp]; rfl)
    have hstart : u.start.2.scheduleQuit.deployQueue = u.deployQueue := by
      unfold UpgradeFactorySnapshot.start
      split <;> rfl
    rw [hstart] at hfin ⊢
    rw [hu.fresh hrun hfin]
    rfl
  | launched u st c hp hnext hfin hcmd hstep hlaunch =>
    have hu : QueueOK u := hw.service (by rw [hp]; rfl)
    have hcmds := h.current u (by rw [hp]; rfl) (hu.scheduled hnext).2.2.2 hfin
    have htake : cmds ++ [c] = deployCmds.take ((u.deployQueue.current + 1).toNat + 1) := by
      rw [List.take_add_one, hcmd, hcmds]
      rfl
    have hfalse : w.startsTrue e = false := by
      by_contra ht
      -- a `Start` is answered TRUE only while nothing is scheduled
      obtain ⟨-, v, hv, hrun, -⟩ := startsTrue_up (by simpa using ht)
      rw [hp] at hv
      cases hv
      rw [(hu.scheduled hnext).2.2.2] at hrun
      cases hrun
    rw [hfalse, if_neg (by decide), hlaunch, htake]
    refine ⟨List.take_prefix _ _, fun v hv _ _ => ?_⟩
    rw [hstep] at hv
    cases hv
    have hcur := hu.current
    simp only [UpgradeFactorySnapshot.withNext]
    congr 1
    omega
  | kept hlaunch hfalse hqueue =>
    rw [hlaunch, hfalse, if_neg (by decide), List.append_nil]
    refine ⟨h.ordered, fun v hv hrun hfin => ?_⟩
    obtain ⟨u, hu, hr, hq⟩ := hqueue v hv
    have heq := hq hfin
    rw [heq] at hfin ⊢
    exact h.current u hu (hr hrun) hfin

variable {store : Store} {orphans : List SnapshotCmd} {es : List Event}

/-- What a run has launched. -/
theorem wAt_launched : ∀ n, n ≤ es.length →
    Launched (launchedSince (.rest store orphans) es n) (wAt (.rest store orphans) es n) := by
  intro n
  induction n with
  | zero =>
    intro _
    refine ⟨List.nil_prefix, fun u hu => ?_⟩
    simp [wAt, World.rest, Proc.service] at hu
  | succ n ih =>
    intro hn
    simp only [launchedSince, List.getElem?_eq_getElem (show n < es.length by omega), wAt]
    rw [stateAt_succ (by omega)]
    exact (ih (by omega)).step (wAt_queueOK (by omega))

/-- Once halted, a run stays halted until the bus starts a new process. -/
theorem wAt_halted {n m : ℕ} (hnm : n ≤ m) (hm : m ≤ es.length) (h : (wAt (.rest store orphans) es n).Halted)
    (hact : ∀ k (hk : k < es.length), n ≤ k → k < m → ¬ (wAt (.rest store orphans) es k).activates es[k]) :
    (wAt (.rest store orphans) es m).Halted := by
  induction m, hnm using Nat.le_induction with
  | base => exact h
  | succ m hnm ih =>
    have hm' := ih (by omega) (fun k hk hnk hkm => hact k hk hnk (by omega))
    rw [wAt, stateAt_succ (by omega)]
    exact hm'.step (wAt_queueOK (by omega)) (hact m (by omega) hnm (by omega))

/-- Once quiet, a run stays quiet until a `Start` is answered TRUE. -/
theorem wAt_quiet {n m : ℕ} (hnm : n ≤ m) (hm : m ≤ es.length) (h : (wAt (.rest store orphans) es n).Quiet)
    (hstart : ∀ k (hk : k < es.length), n ≤ k → k < m →
      (wAt (.rest store orphans) es k).startsTrue es[k] = false) :
    (wAt (.rest store orphans) es m).Quiet := by
  induction m, hnm using Nat.le_induction with
  | base => exact h
  | succ m hnm ih =>
    have hm' := ih (by omega) (fun k hk hnk hkm => hstart k hk hnk (by omega))
    rw [wAt, stateAt_succ (by omega)]
    exact hm'.step (wAt_queueOK (by omega)) (hstart m (by omega) hnm (by omega))

/-- A checked task has failed. -/
def World.failsChecked (w : World) (e : Event) : Prop :=
  ∃ u i ok c task, w.proc = .up u ∧ e = .childExit i ok ∧ u.children[i]? = some c ∧
    (c.run ok w.store).1 = false ∧ u.deployQueue.getCurrentTask = some task ∧ task.checked = true

/-- The failure of a checked task ends the main loop. -/
theorem failsChecked_exit {w : World} {e : Event} (h : w.failsChecked e) : ∃ v, (w.step e).proc = .exiting v false := by
  obtain ⟨u, i, ok, c, task, hp, rfl, hc, hrun, ht, hchk⟩ := h
  have hfail : ({ u with children := u.children.eraseIdx i } : UpgradeFactorySnapshot).onSubprocessFinishedCb false =
      failAndExit "Failed to run command: %s\n" := by
    have ht' : ({ u with children := u.children.eraseIdx i } : UpgradeFactorySnapshot).deployQueue.getCurrentTask =
        some task := ht
    simp only [UpgradeFactorySnapshot.onSubprocessFinishedCb, ht', deployTaskHandleExitStatus, hchk, and_self, if_true]
    rfl
  refine handled_error hp (x := .exit "Failed to run command: %s\n") ?_
  simp only [UpgradeFactorySnapshot.handled, hc, Option.map_some, hrun, hfail]
  rfl

/-- **Deploy tasks run one at a time and in order**, in a run from `w`. After the failure of a checked task
nothing is launched before another `Start` answered TRUE, and after the start of the cleanup nothing is launched
by the same process. -/
structure DeploysInOrder (w : World) (es : List Event) : Prop where
  single : ∀ n, n ≤ es.length → (wAt w es n).proc.children.length ≤ 1
  running : ∀ n, n ≤ es.length → ∀ u, (wAt w es n).proc.service = some u → u.children ≠ [] → u.running = true
  awake : ∀ n, n ≤ es.length → ∀ u, (wAt w es n).proc = .up u → u.children ≠ [] ∨ u.nextEntries ≠ 0 →
    ∃ u', ((wAt w es n).step .idleTimeout).proc = .up u'
  ordered : ∀ n, n ≤ es.length → launchedSince w es n <+: deployCmds
  exited : ∀ n (hn : n < es.length), (wAt w es n).launched es[n] ≠ [] → (wAt w es n).proc.children = []
  failed : ∀ n m (hn : n < es.length) (hm : m < es.length), n < m → (wAt w es n).failsChecked es[n] →
    (∀ k (hk : k < es.length), n < k → k < m → (wAt w es k).startsTrue es[k] = false) →
    (wAt w es m).launched es[m] = []
  cleaned : ∀ n m (hm : m < es.length), n ≤ m → (∃ u ignored, (wAt w es n).proc = .exiting u ignored) →
    (∀ k (hk : k < es.length), n ≤ k → k < m → ¬ (wAt w es k).activates es[k]) → (wAt w es m).launched es[m] = []

/-- The children of a process whose queue is all right: one at most, and only while it runs. -/
theorem QueueOK.children {u : UpgradeFactorySnapshot} (h : QueueOK u) :
    u.children.length ≤ 1 ∧ (u.children ≠ [] → u.running = true) := by
  have hone := h.one
  have hidle := h.idle
  unfold UpgradeFactorySnapshot.pending at hone hidle
  refine ⟨by omega, fun hc => ?_⟩
  by_contra hr
  have h0 := hidle (by simpa using hr)
  exact hc (List.eq_nil_of_length_eq_zero (by omega))

/-- Whoever leaves the main loop aborts the deploy queue. -/
theorem World.UpStep.exiting {w w' : World} {u v : UpgradeFactorySnapshot} {ignored : Bool} {e : Event}
    (h : w.UpStep u e w') (hv : w'.proc = .exiting v ignored) : v.deployQueue.finished = true := by
  cases h <;> cases hv <;> rfl

/-- A process in its cleanup is halted. -/
def World.ExitsHalted (w : World) : Prop := ∀ u ignored, w.proc = .exiting u ignored → w.Halted

theorem World.ExitsHalted.step {w : World} {e : Event} (hw : w.proc.All QueueOK) (h : w.ExitsHalted) :
    (w.step e).ExitsHalted := by
  intro v ignored hv
  cases hp : w.proc with
  | off =>
    by_cases he : e = .launch
    · subst he
      simp [World.step, hp] at hv
    · rw [step_off hp he] at hv
      cases hv
  | up u =>
    by_cases ho : ∃ ok, e = .orphanExit ok
    · obtain ⟨ok, rfl⟩ := ho
      rw [step_orphanExit, hp] at hv
      cases hv
    · push Not at ho
      unfold World.Halted
      rw [hv]
      rw [step_up hp ho] at hv
      exact (stepUp_cases hp e).exiting hv
  | exiting u ign =>
    exact (h u ign hp).step hw (fun hact => by rw [hact.1] at hp; cases hp)

/-- Every process of a run that is in its cleanup is halted. -/
theorem wAt_exiting {n : ℕ} (hn : n ≤ es.length) : (wAt (.rest store orphans) es n).ExitsHalted := by
  have h0 : (World.rest store orphans).proc.All QueueOK ∧ (World.rest store orphans).ExitsHalted :=
    ⟨trivial, fun u ignored h => by cases h⟩
  exact (stateAt_inv (fun w : World => w.proc.All QueueOK ∧ w.ExitsHalted) h0
    (fun _ _ h => ⟨step_queueOK _ h.1, h.2.step h.1⟩) n hn).2

/-- **Deploy tasks run one at a time and in order** in every run of the service. -/
theorem deploys_in_order (store : Store) (orphans : List SnapshotCmd) (es : List Event) :
    DeploysInOrder (.rest store orphans) es := by
  have hqueue : ∀ {n}, n ≤ es.length → ∀ {u}, (wAt (.rest store orphans) es n).proc.service = some u → QueueOK u :=
    fun hn _ hu => (wAt_queueOK hn).service hu
  have hcleaned : ∀ n m (hm : m < es.length), n ≤ m →
      (∃ u ignored, (wAt (.rest store orphans) es n).proc = .exiting u ignored) →
      (∀ k (hk : k < es.length), n ≤ k → k < m → ¬ (wAt (.rest store orphans) es k).activates es[k]) →
      (wAt (.rest store orphans) es m).launched es[m] = [] := by
    rintro n m hm hnm ⟨u, ignored, hp⟩ hact
    have hhalt := wAt_halted hnm (by omega) (wAt_exiting (by omega) u ignored hp) hact
    exact hhalt.quiet.launched (wAt_queueOK (by omega))
  refine ⟨fun n hn => ?_, fun n hn u hu => (hqueue hn hu).children.2, fun n hn u hp hbusy => ?_,
    fun n hn => (wAt_launched n hn).ordered, fun n hn hl => ?_, fun n m hn hm hnm hf hstart => ?_, hcleaned⟩
  · cases hs : (wAt (.rest store orphans) es n).proc with
    | off => exact Nat.zero_le _
    | up u => exact (hqueue hn (by rw [hs]; rfl)).children.1
    | exiting u ignored => exact (hqueue hn (by rw [hs]; rfl)).children.1
  · have hu : QueueOK u := wAt_up hn hp
    have hrun : u.running = true := by
      rcases hbusy with hc | hc
      · exact hu.children.2 hc
      · exact (hu.scheduled hc).2.2.2
    simp only [World.step, hp, World.stepUp, hrun, if_true]
    split
    · exact ⟨u, hp⟩
    · exact ⟨_, rfl⟩
  · have hw : (wAt (.rest store orphans) es n).proc.All QueueOK := wAt_queueOK (by omega)
    cases step_moves es[n] hw with
    | activated h0 => rw [h0.1]; rfl
    | started u hp _ _ hstep =>
      exact absurd (launched_nil (by rw [hstep, hp]; unfold UpgradeFactorySnapshot.start; split <;> exact le_rfl)) hl
    | launched u st c hp hnext =>
      rw [hp]
      exact ((wAt_up (by omega) hp).scheduled hnext).2.1
    | kept hlaunch => exact absurd hlaunch hl
  · have hsucc : wAt (.rest store orphans) es (n + 1) = (wAt (.rest store orphans) es n).step es[n] :=
      stateAt_succ (by omega)
    obtain ⟨v, hv⟩ := failsChecked_exit hf
    have hquiet : (wAt (.rest store orphans) es (n + 1)).Quiet :=
      (wAt_exiting (by omega) v false (by rw [hsucc]; exact hv)).quiet
    exact (wAt_quiet hnm (by omega) hquiet hstart).launched (wAt_queueOK (by omega))

end Sfmf

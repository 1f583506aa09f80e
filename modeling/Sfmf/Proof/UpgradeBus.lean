import Sfmf.Spec.UpgradeBus
import Sfmf.Proof.Service

/-!
# What the upgrade service says on the bus

* `Allowed`, `Protocol`: what a message may say after those before it.
* `StatusOK`, `IdleOK`: the status names a partition and its number, and a service that does not run has no current
  task and an idle timer.
* `BusInv`: the invariant; `bus_protocol`: in every run, all messages keep to the protocol.
-/

namespace Sfmf

/-! ## The protocol -/

/-- What the service said last about `running`, `FALSE` before it said anything. -/
def lastRunning : List UfsMessage → Bool
  | [] => false
  | .signal (.propertiesChanged running) :: _ => running
  | _ :: bus => lastRunning bus

/-- The answers to `GetProgress` since the last signal, the latest first. -/
def sinceSignal : List UfsMessage → List UfsProgress
  | [] => []
  | .signal _ :: _ => []
  | .answer (.getProgress args) :: bus => args :: sinceSignal bus
  | .answer _ :: bus => sinceSignal bus

/-- The partition that is reported: one of the two with its number, none of them as the only one, or none at all before
the first status. -/
def PartitionOK (name : String) (pos total : ℤ) : Prop :=
  (name = "@" ∧ pos = 1 ∧ total = 2) ∨ (name = "@home" ∧ pos = 2 ∧ total = 2) ∨
    (name ≠ "@" ∧ name ≠ "@home" ∧ pos = 1 ∧ total = 1) ∨ (name = "" ∧ pos = 1 ∧ total = 0)

/-- **A progress that makes sense.** It is that of the deploy queue; a position within the queue goes with the name of the
task there, and position 0 with the empty name. -/
structure UfsProgress.WellFormed (args : UfsProgress) : Prop where
  queue : args.queueName = "deploy" ∧ args.queueTotal = 8
  pos : 0 ≤ args.queuePos ∧ args.queuePos ≤ args.queueTotal
  none : args.queuePos = 0 → args.taskName = some ""
  task : 0 < args.queuePos → ∃ task name, gDeployTasks[(args.queuePos - 1).toNat]? = some task ∧
    task.name = some name ∧ args.taskName = some name
  partition : PartitionOK args.partitionName args.partitionPos args.partitionTotal

/-- The progress when the queue has come to its end. -/
def UfsProgress.atEnd (args : UfsProgress) : UfsProgress := { args with taskName := some "", queuePos := 0 }

/-- **What a message may say** after the messages before it. -/
def Allowed (bus : List UfsMessage) : UfsMessage → Prop
  | .signal .progressChanged => lastRunning bus = true
  | .signal (.propertiesChanged running) => lastRunning bus = !running
  | .answer (.start true) => ∃ earlier, bus = .signal (.propertiesChanged true) :: earlier
  | .answer (.start false) => lastRunning bus = true
  | .answer (.running value) => value = lastRunning bus
  | .answer (.getProgress args) => args.WellFormed ∧ ∀ before ∈ sinceSignal bus, args = before ∨ args = before.atEnd
  | .answer (.dbusError _ _) => True

/-- All messages are allowed after those before them. -/
def Protocol : List UfsMessage → Prop
  | [] => True
  | m :: bus => Allowed bus m ∧ Protocol bus

/-! ## The status and the idle timer -/

namespace UpgradeFactorySnapshot

/-- What is set once and for all, and the status. -/
structure StatusOK (u : UpgradeFactorySnapshot) : Prop where
  name : u.deployQueue.name = "deploy"
  total : u.deployQueue.total = 8
  partitions : u.partitions = ["@", "@home"]
  status : PartitionOK (u.status.partition.getD "") (u.status.partitionCurrent + 1) u.status.partitionTotal

theorem statusOK_init : gUfs.StatusOK := by
  refine ⟨rfl, rfl, rfl, .inr (.inr (.inr ⟨rfl, rfl, rfl⟩))⟩

theorem StatusOK.congr {u u' : UpgradeFactorySnapshot} (h : u.StatusOK) (hname : u'.deployQueue.name = u.deployQueue.name)
    (htotal : u'.deployQueue.total = u.deployQueue.total) (hpart : u'.partitions = u.partitions)
    (hst : u'.status = u.status) : u'.StatusOK :=
  ⟨hname.trans h.name, htotal.trans h.total, hpart.trans h.partitions, by rw [hst]; exact h.status⟩

/-- What `broadcast_status` reports of a partition. -/
theorem StatusOK.broadcast {u u' : UpgradeFactorySnapshot} (h : u.StatusOK) {p : String} {k : ℤ} {m : String}
    (hu : u.broadcastStatus p k m = .ok u') : u'.StatusOK := by
  have hframe := broadcastStatus_ok hu
  refine ⟨by rw [hframe]; exact h.name, by rw [hframe]; exact h.total, by rw [hframe]; exact h.partitions, ?_⟩
  unfold broadcastStatus at hu
  split at hu
  · simp at hu
  · simp only [Except.ok.injEq, h.partitions] at hu
    subst hu
    by_cases h1 : p = "@"
    · subst h1
      exact .inl ⟨rfl, rfl, rfl⟩
    · by_cases h2 : p = "@home"
      · subst h2
        exact .inr (.inl ⟨rfl, rfl, rfl⟩)
      · refine .inr (.inr (.inl ⟨h1, h2, ?_, ?_⟩))
        · simp [List.findIdx_cons, Ne.symm h1, Ne.symm h2]
        · simp [List.findIdx_cons, Ne.symm h1, Ne.symm h2]

/-- **A service that does not run**, or is about to stop: the queue has no current task. If it does not run, its idle timer
is on. -/
structure IdleOK (u : UpgradeFactorySnapshot) : Prop where
  none : u.running = false ∨ u.delayedFinishes ≠ 0 → u.deployQueue.current = -1
  timer : u.running = false → u.idleTimer = true

theorem idleOK_init : gUfs.IdleOK := ⟨fun _ => rfl, fun _ => rfl⟩

/-- A current task is that of a service that runs. -/
theorem IdleOK.running {u : UpgradeFactorySnapshot} (h : u.IdleOK) {task : DeployTask}
    (ht : u.deployQueue.getCurrentTask = some task) : u.running = true := by
  by_contra hrun
  have hcur := h.none (.inl (by simpa using hrun))
  rw [DeployTaskQueue.getCurrentTask, hcur] at ht
  simp at ht

/-- **What a service can say at any time.** -/
structure TalkOK (u : UpgradeFactorySnapshot) : Prop where
  queue : QueueOK u
  status : u.StatusOK
  idle : u.IdleOK

theorem talkOK_init : gUfs.TalkOK := ⟨queueOK_init, statusOK_init, idleOK_init⟩

/-- Neither the snapshots nor the exit see more of a queue than its end. -/
theorem StatusOK.abort {u : UpgradeFactorySnapshot} (h : u.StatusOK) :
    ({ u with deployQueue := u.deployQueue.abort } : UpgradeFactorySnapshot).StatusOK :=
  h.congr rfl rfl rfl rfl

theorem IdleOK.abort {u : UpgradeFactorySnapshot} (h : u.IdleOK) :
    ({ u with deployQueue := u.deployQueue.abort } : UpgradeFactorySnapshot).IdleOK :=
  ⟨h.none, h.timer⟩

/-- A step of the deploy queue reports a partition as `broadcast_status` does. -/
theorem StatusOK.next {u u' : UpgradeFactorySnapshot} {spawned : Bool} (h : u.StatusOK)
    (hu : u.deployTaskQueueNext spawned = .ok u') : u'.StatusOK := by
  unfold deployTaskQueueNext at hu
  split at hu
  · simp only [Except.ok.injEq] at hu
    subst hu
    exact h
  · simp only at hu
    split at hu
    · simp at hu
    · split at hu
      · unfold runAsync at hu
        split at hu
        · simp at hu
        · rw [bind_ok] at hu
          obtain ⟨v, hv, hu⟩ := hu
          have hvOK : v.StatusOK := by
            refine StatusOK.broadcast ?_ hv
            exact h.congr rfl rfl rfl rfl
          split at hu
          · simp only [Except.ok.injEq] at hu
            subst hu
            exact hvOK.congr rfl rfl rfl rfl
          · simp at hu
      · simp only [finishedCb, Except.ok.injEq] at hu
        subst hu
        exact h.congr rfl rfl rfl rfl

theorem StatusOK.childExit {u u' : UpgradeFactorySnapshot} {ok : Bool} (h : u.StatusOK)
    (hu : u.onSubprocessFinishedCb ok = .ok u') : u'.StatusOK := by
  unfold onSubprocessFinishedCb at hu
  split at hu
  · simp at hu
  · simp only [bind_ok] at hu
    obtain ⟨-, -, v, hv, hu⟩ := hu
    simp only [taskDoneCb, Except.ok.injEq] at hu
    subst hu
    exact (h.broadcast hv).congr rfl rfl rfl rfl

/-- A step of the deploy queue starts a task while the service runs, or ends the queue. -/
theorem IdleOK.next {u u' : UpgradeFactorySnapshot} {spawned : Bool} (h : u.IdleOK) (hq : QueueOK u)
    (hn : u.nextEntries ≠ 0)
    (hu : { u with nextEntries := u.nextEntries - 1 }.deployTaskQueueNext spawned = .ok u') : u'.IdleOK := by
  obtain ⟨-, -, hfinish, hrun⟩ := hq.scheduled hn
  rcases deployTaskQueueNext_cases hu with ⟨-, rfl⟩ | ⟨-, task, c, st, -, -, -, rfl⟩ | ⟨-, task, -, -, rfl⟩
  · exact ⟨h.none, h.timer⟩
  · exact ⟨fun hidle => by simp [hrun, hfinish] at hidle, fun hr => absurd (hrun.symm.trans hr) (by decide)⟩
  · exact ⟨fun _ => rfl, fun hr => absurd (hrun.symm.trans hr) (by decide)⟩

theorem IdleOK.childExit {u u' : UpgradeFactorySnapshot} {i : ℕ} {ok : Bool} (h : u.IdleOK)
    (hu : { u with children := u.children.eraseIdx i }.onSubprocessFinishedCb ok = .ok u') : u'.IdleOK := by
  obtain ⟨task, st, -, -, -, rfl⟩ := onSubprocessFinishedCb_cases hu
  exact ⟨h.none, h.timer⟩

end UpgradeFactorySnapshot

open UpgradeFactorySnapshot

/-- What a callback keeps is kept when the main loop goes on, and when it is left. -/
theorem World.resume_all {P : UpgradeFactorySnapshot → Prop} {w : World} {u : UpgradeFactorySnapshot}
    {r : Exec UpgradeFactorySnapshot} (hexit : P { u with deployQueue := u.deployQueue.abort })
    (hok : ∀ u', r = .ok u' → P u') : (w.resume u r).proc.All P := by
  unfold World.resume
  split
  · exact hok _ rfl
  · exact hexit

/-- **One event at a process in its main loop.** -/
theorem stepUp_talkOK {w : World} {u : UpgradeFactorySnapshot} (hp : w.proc = .up u) (e : Event) (h : u.TalkOK) :
    (w.stepUp u e).proc.All TalkOK := by
  rw [Proc.all_service]
  intro u' hu'
  have hqueue : QueueOK u' := ((stepUp_cases hp e).queueOK h.queue).service hu'
  -- the rest without the invariant of the queue
  suffices hrest : (w.stepUp u e).proc.All fun v => v.StatusOK ∧ v.IdleOK by
    obtain ⟨hstatus, hidle⟩ := hrest.service hu'
    exact ⟨hqueue, hstatus, hidle⟩
  have hsame : w.proc.All fun v => v.StatusOK ∧ v.IdleOK := by
    rw [hp]
    exact ⟨h.status, h.idle⟩
  have hexit : ({ u with deployQueue := u.deployQueue.abort } : UpgradeFactorySnapshot).StatusOK ∧
      ({ u with deployQueue := u.deployQueue.abort } : UpgradeFactorySnapshot).IdleOK :=
    ⟨h.status.abort, h.idle.abort⟩
  cases e with
  | start =>
    cases hrun : u.running with
    | true =>
      simp only [World.stepUp, start, hrun, if_true]
      exact ⟨h.status.congr rfl rfl rfl rfl, fun hi => h.idle.none hi, fun _ => rfl⟩
    | false =>
      simp only [World.stepUp, start, hrun, Bool.false_eq_true, if_false]
      exact ⟨h.status.congr rfl rfl rfl rfl, fun _ => h.idle.none (.inl hrun), fun _ => rfl⟩
  | call => exact ⟨h.status.congr rfl rfl rfl rfl, h.idle.none, fun _ => rfl⟩
  | progress p k m =>
    refine World.resume_all hexit fun v hv => ⟨h.status.broadcast hv, ?_⟩
    rw [broadcastStatus_ok hv]
    exact ⟨h.idle.none, h.idle.timer⟩
  | nextEntry spawned =>
    simp only [World.stepUp]
    split
    · exact hsame
    · rename_i hn
      refine World.resume_all ⟨h.status.abort.congr rfl rfl rfl rfl, h.idle.none, h.idle.timer⟩ fun v hv => ?_
      have hst : ({ u with nextEntries := u.nextEntries - 1 } : UpgradeFactorySnapshot).StatusOK :=
        h.status.congr rfl rfl rfl rfl
      exact ⟨hst.next hv, h.idle.next h.queue hn hv⟩
  | childExit i ok =>
    have hst : ({ u with children := u.children.eraseIdx i } : UpgradeFactorySnapshot).StatusOK :=
      h.status.congr rfl rfl rfl rfl
    simp only [World.stepUp]
    split
    · exact hsame
    · refine World.resume_all ⟨h.status.abort.congr rfl rfl rfl rfl, h.idle.none, h.idle.timer⟩ fun v hv => ?_
      exact ⟨hst.childExit hv, h.idle.childExit hv⟩
  | delayedFinish =>
    simp only [World.stepUp]
    split
    · exact hsame
    · rename_i hn
      exact ⟨h.status.congr rfl rfl rfl rfl, fun _ => h.idle.none (.inr hn), fun _ => rfl⟩
  | idleTimeout =>
    simp only [World.stepUp]
    split
    · exact hsame
    · split
      · rename_i hrun
        exact ⟨h.status.congr rfl rfl rfl rfl, h.idle.none, fun hr => absurd (hrun.symm.trans hr) (by decide)⟩
      · exact hexit
  | quit ignored => exact hexit
  | _ => exact hsame

/-- The cleanup changes nothing that a service says. -/
theorem World.ExitStep.frame {w w' : World} {u u' : UpgradeFactorySnapshot} {ignored : Bool} (h : w.ExitStep u ignored w')
    (hp : w.proc = .exiting u ignored) (hu' : w'.proc.service = some u') :
    ∃ q cs, u' = { u with cleanupQueue := q, children := cs } := by
  cases h with
  | kept =>
    rw [hp] at hu'
    cases hu'
    exact ⟨u.cleanupQueue, u.children, rfl⟩
  | cleaned q hq =>
    unfold World.cleaned at hu'
    split at hu'
    · cases hu'
      exact ⟨q, u.children, rfl⟩
    · cases hu'
  | ran q hq =>
    cases hu'
    exact ⟨q, u.children, rfl⟩
  | gone => cases hu'
  | failed => cases hu'
  | childDone =>
    cases hu'
    exact ⟨u.cleanupQueue, _, rfl⟩

/-- The bus activates the service. -/
theorem step_launch {w : World} (hp : w.proc = .off) : w.step .launch = { w with proc := .up gUfs } := by
  simp [World.step, hp]

/-- **Every event keeps what a service can say.** -/
theorem step_talkOK {w : World} (e : Event) (h : w.proc.All TalkOK) : (w.step e).proc.All TalkOK := by
  by_cases horphan : ∃ ok, e = .orphanExit ok
  · obtain ⟨ok, rfl⟩ := horphan
    rw [step_orphanExit]
    exact h
  push Not at horphan
  cases hp : w.proc with
  | off =>
    by_cases hlaunch : e = .launch
    · subst hlaunch
      rw [step_launch hp]
      exact talkOK_init
    · rw [step_off hp hlaunch]
      trivial
  | up u =>
    rw [hp] at h
    rw [step_up hp horphan]
    exact stepUp_talkOK hp e h
  | exiting u ignored =>
    rw [hp] at h
    rw [step_exiting hp horphan, Proc.all_service]
    intro u' hu'
    have hstep := stepExiting_cases w u ignored e
    have hqueue : QueueOK u' := (hstep.queueOK hp h.queue).service hu'
    obtain ⟨q, cs, rfl⟩ := hstep.frame hp hu'
    exact ⟨hqueue, h.status.congr rfl rfl rfl rfl, h.idle.none, h.idle.timer⟩

/-- **The progress always makes sense.** -/
theorem UpgradeFactorySnapshot.TalkOK.wellFormed {u : UpgradeFactorySnapshot} (h : u.TalkOK) :
    u.getProgress.WellFormed := by
  have hcur := h.queue.current
  refine ⟨⟨h.status.name, h.status.total⟩, ?_, ?_, ?_, h.status.status⟩
  · rw [show u.getProgress.queueTotal = 8 from h.status.total, show u.getProgress.queuePos = u.deployQueue.current + 1 from rfl]
    omega
  · intro hpos
    have hneg : ¬ 0 ≤ u.deployQueue.current := by
      have : u.deployQueue.current + 1 = 0 := hpos
      omega
    simp only [getProgress, DeployTaskQueue.getCurrentTask, if_neg hneg]
  · intro hpos
    have h0 : 0 ≤ u.deployQueue.current := by
      have : 0 < u.deployQueue.current + 1 := hpos
      omega
    have hsub : u.getProgress.queuePos - 1 = u.deployQueue.current := by
      show u.deployQueue.current + 1 - 1 = u.deployQueue.current
      omega
    rw [hsub]
    obtain ⟨k, hk⟩ := Int.eq_ofNat_of_zero_le h0
    have hk7 : k ≤ 7 := by omega
    simp only [getProgress, DeployTaskQueue.getCurrentTask, h.queue.tasks, hk, Int.toNat_natCast]
    interval_cases k <;> exact ⟨_, _, rfl, rfl, rfl⟩

/-! ## What an event makes the service say -/

/-- The current task is that at the position. -/
theorem broadcastStatusSignals_some {u : UpgradeFactorySnapshot} {task : DeployTask}
    (h : u.deployQueue.getCurrentTask = some task) : u.broadcastStatusSignals = [.progressChanged] := by
  simp only [broadcastStatusSignals, h]

/-- **What the service says at an event**, and what it would answer behind it: nothing, and the progress is the same or
the queue has come to its end; or `ProgressChanged`, while it runs; or that it does not run any more. -/
inductive Tells (u u' : UpgradeFactorySnapshot) : List UfsSignal → Prop where
  | nothing (hrun : u'.running = u.running)
      (hsame : u'.getProgress = u.getProgress ∨ u'.getProgress = u.getProgress.atEnd) : Tells u u' []
  | progressChanged (hrun : u.running = true) (hrun' : u'.running = true) : Tells u u' [.progressChanged]
  | stopped (hrun : u.running = true) (hrun' : u'.running = false) : Tells u u' [.propertiesChanged false]

theorem Tells.refl (u : UpgradeFactorySnapshot) : Tells u u [] := .nothing rfl (.inl rfl)

/-- A step of the queue that is not finished broadcasts a status unless it has come to the terminator. -/
theorem deployTaskQueueNextSignals_some {u : UpgradeFactorySnapshot} {task : DeployTask}
    (hfin : u.deployQueue.finished = false)
    (ht : ({ u.deployQueue with current := u.deployQueue.current + 1 } : DeployTaskQueue).getCurrentTask = some task) :
    u.deployTaskQueueNextSignals = if task.cmd.isSome then [.progressChanged] else [] := by
  unfold deployTaskQueueNextSignals
  rw [if_neg (by simp [hfin])]
  simp only [ht, runAsyncSignals, broadcastStatusSignals]
  cases task.cmd <;> rfl

/-- The idle callback. -/
theorem nextEntry_tells {w : World} {u u' : UpgradeFactorySnapshot} {spawned : Bool} (h : u.TalkOK)
    (hn : u.nextEntries ≠ 0)
    (hu' : (w.resume { u with nextEntries := u.nextEntries - 1 }
      ({ u with nextEntries := u.nextEntries - 1 }.deployTaskQueueNext spawned)).proc.service = some u') :
    Tells u u' u.deployTaskQueueNextSignals := by
  obtain ⟨-, -, -, hrun⟩ := h.queue.scheduled hn
  have h0 : 0 ≤ u.deployQueue.current + 1 := by
    have := h.queue.current
    omega
  obtain ⟨task, ht⟩ := h.queue.next
  have hat : u.deployQueue.tasks[(u.deployQueue.current + 1).toNat]? = some task := by
    simpa only [DeployTaskQueue.getCurrentTask, if_pos h0] using ht
  cases hr : { u with nextEntries := u.nextEntries - 1 }.deployTaskQueueNext spawned with
  | ok v =>
    rw [hr] at hu'
    cases hu'
    rcases deployTaskQueueNext_cases hr with ⟨hfin, rfl⟩ | ⟨hfin, task', c, st, ht', -, hc, rfl⟩ |
      ⟨hfin, task', ht', hc, rfl⟩
    · have hfin : u.deployQueue.finished = true := hfin
      simp only [deployTaskQueueNextSignals, hfin, if_true]
      exact .nothing rfl (.inl rfl)
    · have hfin : u.deployQueue.finished = false := hfin
      obtain rfl : task = task' := Option.some.inj (hat.symm.trans ht')
      have hsaid : u.deployTaskQueueNextSignals = [.progressChanged] := by
        rw [deployTaskQueueNextSignals_some hfin ht, hc]
        rfl
      rw [hsaid]
      exact .progressChanged hrun hrun
    · have hfin : u.deployQueue.finished = false := hfin
      obtain rfl : task = task' := Option.some.inj (hat.symm.trans ht')
      have hsaid : u.deployTaskQueueNextSignals = [] := by
        rw [deployTaskQueueNextSignals_some hfin ht, hc]
        rfl
      rw [hsaid]
      exact .nothing rfl (.inr rfl)
  | error x =>
    rw [hr] at hu'
    cases hu'
    cases hfin : u.deployQueue.finished with
    | true =>
      simp only [deployTaskQueueNextSignals, hfin, if_true]
      exact .nothing rfl (.inl rfl)
    | false =>
      rw [deployTaskQueueNextSignals_some hfin ht]
      split
      · exact .progressChanged hrun hrun
      · exact .nothing rfl (.inl rfl)

/-- The exit of a child. -/
theorem childExit_tells {w : World} {u u' : UpgradeFactorySnapshot} {i : ℕ} {ok : Bool} {c : SnapshotCmd} (h : u.TalkOK)
    (hc : u.children[i]? = some c)
    (hu' : (w.resume { u with children := u.children.eraseIdx i }
      ({ u with children := u.children.eraseIdx i }.onSubprocessFinishedCb ok)).proc.service = some u') :
    Tells u u' (u.onSubprocessFinishedCbSignals ok) := by
  obtain ⟨task, ht⟩ := h.queue.getCurrentTask (h.queue.task (List.mem_of_getElem? hc)).1
  have hrun := h.idle.running ht
  obtain ⟨st, hst⟩ := @broadcastStatus_some { u with children := u.children.eraseIdx i } task ht "" 100 "Finishing"
  simp only [onSubprocessFinishedCb, ht] at hu'
  simp only [onSubprocessFinishedCbSignals, ht]
  cases hexit : deployTaskHandleExitStatus task ok with
  | ok v =>
    simp only [hexit, hst, ok_bind] at hu'
    cases hu'
    rw [broadcastStatusSignals_some ht]
    exact .progressChanged hrun hrun
  | error x =>
    simp only [hexit] at hu'
    cases hu'
    exact .nothing rfl (.inl rfl)

/-- An event that is no call. -/
theorem stepUp_tells {w : World} {u u' : UpgradeFactorySnapshot} {e : Event} (hp : w.proc = .up u) (h : u.TalkOK)
    (he : e.isCall = false) (hu' : (w.stepUp u e).proc.service = some u') : Tells u u' (u.signals w.store e) := by
  have hsame : w.proc.service = some u' → Tells u u' [] := by
    intro hw
    rw [hp] at hw
    cases hw
    exact .refl u
  cases e with
  | start => cases he
  | call => cases he
  | progress p k m =>
    simp only [World.stepUp] at hu'
    simp only [signals, broadcastStatusSignals]
    cases ht : u.deployQueue.getCurrentTask with
    | none =>
      simp only [broadcastStatus, ht] at hu'
      cases hu'
      exact .nothing rfl (.inl rfl)
    | some task =>
      obtain ⟨st, hst⟩ := broadcastStatus_some ht p k m
      rw [hst] at hu'
      cases hu'
      exact .progressChanged (h.idle.running ht) (h.idle.running ht)
  | nextEntry spawned =>
    simp only [World.stepUp] at hu'
    simp only [signals]
    split at hu'
    · rename_i hn
      rw [if_pos hn]
      exact hsame hu'
    · rename_i hn
      rw [if_neg hn]
      exact nextEntry_tells h hn hu'
  | childExit i ok =>
    cases hc : u.children[i]? with
    | none =>
      simp only [World.stepUp, hc] at hu'
      simp only [signals, hc]
      exact hsame hu'
    | some c =>
      simp only [World.stepUp, hc] at hu'
      simp only [signals, hc]
      exact childExit_tells h hc hu'
  | delayedFinish =>
    simp only [World.stepUp] at hu'
    simp only [signals]
    split at hu'
    · rename_i hn
      rw [if_pos hn]
      exact hsame hu'
    · rename_i hn
      rw [if_neg hn]
      cases hu'
      have hrun : u.running = true := by
        by_contra hrun
        have hidle := h.queue.idle (by simpa using hrun)
        unfold pending at hidle
        omega
      simp only [setRunningSignals, hrun, Bool.true_eq_false, if_false]
      exact .stopped hrun rfl
  | idleTimeout =>
    simp only [World.stepUp] at hu'
    split at hu'
    · exact hsame hu'
    · split at hu'
      · cases hu'
        exact .nothing rfl (.inl rfl)
      · cases hu'
        exact .nothing rfl (.inl rfl)
  | quit ignored =>
    cases hu'
    exact .nothing rfl (.inl rfl)
  | _ => exact hsame hu'

/-- The main loop is left for the cleanup, and not for the end of the process. -/
theorem World.UpStep.service {w w' : World} {u : UpgradeFactorySnapshot} {e : Event} (h : w.UpStep u e w') :
    ∃ u', w'.proc.service = some u' := by
  cases h with
  | kept => exact ⟨_, rfl⟩
  | started => exact ⟨_, rfl⟩
  | next => exact ⟨_, rfl⟩
  | nextFails => exact ⟨_, rfl⟩
  | childDone => exact ⟨_, rfl⟩
  | childFails => exact ⟨_, rfl⟩
  | finished => exact ⟨_, rfl⟩
  | left => exact ⟨_, rfl⟩

/-- The signals of an event that is no call. -/
theorem signals_cases {u : UpgradeFactorySnapshot} (h : u.TalkOK) (store : Store) {e : Event} (he : e.isCall = false) :
    u.signals store e = [] ∨ (u.signals store e = [.progressChanged] ∧ u.running = true) ∨
      (u.signals store e = [.propertiesChanged false] ∧ u.running = true) := by
  have hp : (⟨store, .up u, []⟩ : World).proc = .up u := rfl
  obtain ⟨u', hu'⟩ := (stepUp_cases hp e).service
  have htells := stepUp_tells hp h he hu'
  generalize hsaid : u.signals store e = said at htells
  cases htells with
  | nothing => exact .inl rfl
  | progressChanged hrun => exact .inr (.inl ⟨rfl, hrun⟩)
  | stopped hrun => exact .inr (.inr ⟨rfl, hrun⟩)

/-! ## Every run -/

namespace UpgradeBus

section other

variable {b : UpgradeBus} {e : Sfmf.Event} {he : e.isCall = false}

theorem step_other_up {u : UpgradeFactorySnapshot} (hp : b.world.proc = .up u) : b.step (.other e he) =
    ⟨b.world.step e, b.release, (u.signals b.world.store e).reverse.map .signal ++ b.bus⟩ := by
  simp only [step, hp]

theorem step_other_off (hp : b.world.proc = .off) (hlaunch : e ≠ .launch) :
    b.step (.other e he) = ⟨b.world.step e, b.release, b.bus⟩ := by
  cases e with
  | launch => exact absurd rfl hlaunch
  | _ => simp only [step, hp]

theorem step_other_exiting {u : UpgradeFactorySnapshot} {ignored : Bool} (hp : b.world.proc = .exiting u ignored) :
    b.step (.other e he) = ⟨b.world.step e, b.release, b.bus⟩ := by
  simp only [step, hp]

end other

/-- **The invariant.** What the service said last about `running` is so; the progress has not changed since the last
signal, except to the end of the queue; and all messages are allowed. -/
structure BusInv (b : UpgradeBus) : Prop where
  talk : b.world.proc.All TalkOK
  running : ∀ u, b.world.proc.service = some u → lastRunning b.bus = u.running
  fresh : ∀ u, b.world.proc.service = some u → ∀ before ∈ sinceSignal b.bus,
    u.getProgress = before ∨ u.getProgress = before.atEnd
  protocol : Protocol b.bus

theorem BusInv.rest (store : Store) (orphans : List SnapshotCmd) : (rest store orphans).BusInv where
  talk := trivial
  running u hu := by cases hu
  fresh u hu := by cases hu
  protocol := trivial

/-- A process that answers says nothing new about itself. -/
theorem BusInv.reply {b : UpgradeBus} (h : b.BusInv) {u : UpgradeFactorySnapshot} (hp : b.world.proc = .up u)
    {a : UfsAnswer} (hstart : ∀ r, a ≠ .start r) (hrunning : ∀ v, a = .running v → v = u.running)
    (hprogress : ∀ args, a = .getProgress args → args = u.getProgress) : (b.reply a).BusInv := by
  have hu : b.world.proc.service = some u := by rw [hp]; rfl
  have htalk : u.TalkOK := h.talk.service hu
  cases a with
  | start r => exact absurd rfl (hstart r)
  | running v => exact ⟨h.talk, h.running, h.fresh, (hrunning v rfl).trans (h.running u hu).symm, h.protocol⟩
  | dbusError name message => exact ⟨h.talk, h.running, h.fresh, trivial, h.protocol⟩
  | getProgress args =>
    obtain rfl := hprogress args rfl
    refine ⟨h.talk, h.running, ?_, ⟨htalk.wellFormed, h.fresh u hu⟩, h.protocol⟩
    intro v hv before hbefore
    have hv : v = u := Option.some.inj (hv.symm.trans hu)
    subst hv
    rcases List.mem_cons.1 hbefore with rfl | hbefore
    · exact .inl rfl
    · exact h.fresh v hu before hbefore

/-- The idle timer is not spoken of. -/
theorem BusInv.timer {b : UpgradeBus} (h : b.BusInv) {u : UpgradeFactorySnapshot} (hp : b.world.proc = .up u)
    (release : Option String) :
    ({ world := { b.world with proc := .up u.scheduleQuit }, release := release, bus := b.bus } : UpgradeBus).BusInv := by
  have hu : b.world.proc.service = some u := by rw [hp]; rfl
  have htalk : u.TalkOK := h.talk.service hu
  refine ⟨⟨htalk.queue.congr rfl, htalk.status.congr rfl rfl rfl rfl, htalk.idle.none, fun _ => rfl⟩, ?_, ?_, h.protocol⟩
  · intro v hv
    cases hv
    exact h.running u hu
  · intro v hv
    cases hv
    exact h.fresh u hu

/-- A method call. -/
theorem BusInv.call {b : UpgradeBus} (h : b.BusInv) (callers : Callers) (call : MethodCall) (release : String) :
    (b.step (.call callers call release)).BusInv := by
  simp only [step]
  split
  · rename_i u hp
    have hu : b.world.proc.service = some u := by rw [hp]; rfl
    have htalk : u.TalkOK := h.talk.service hu
    have hquiet : ∀ a : UfsAnswer, (∀ r, a ≠ .start r) → (∀ v, a ≠ .running v) →
        (∀ args, a = .getProgress args → args = u.getProgress) → ∀ env,
        ({ world := { b.world with proc := .up u.scheduleQuit }, release := env, bus := .answer a :: b.bus } :
          UpgradeBus).BusInv := fun a hstart hrunning hprogress env =>
      (h.timer hp env).reply rfl hstart (fun v hv => absurd hv (hrunning v)) hprogress
    unfold methodCallCb
    split
    · split
      · split
        · -- `Start` while it runs
          rename_i hrun
          have hstart : u.start.2 = u := by rw [start, if_pos hrun]
          simp only [hstart]
          exact ⟨(h.timer hp b.release).talk, (h.timer hp b.release).running, (h.timer hp b.release).fresh,
            (h.running u hu).trans hrun, h.protocol⟩
        · -- `Start` that is answered with `TRUE`
          rename_i hrun
          have hoff : u.running = false := by simpa using hrun
          have hsaid : u.setRunningSignals true = [.propertiesChanged true] := by
            rw [setRunningSignals, if_neg hrun]
          simp only [hsaid]
          have hnew : (u.start.2.scheduleQuit).running = true := by
            rw [start, if_neg hrun]
            rfl
          refine ⟨⟨queueOK_start htalk.queue hoff, ?_, ?_⟩, ?_, ?_, ⟨_, rfl⟩, ?_, h.protocol⟩
          · rw [start, if_neg hrun]
            exact htalk.status.congr rfl rfl rfl rfl
          · rw [start, if_neg hrun]
            exact ⟨fun _ => htalk.idle.none (.inl hoff), fun _ => rfl⟩
          · intro v hv
            cases hv
            exact hnew.symm
          · intro v hv before hbefore
            cases hbefore
          · exact (h.running u hu).trans hoff
      · split
        · refine hquiet _ ?_ ?_ ?_ b.release
          · exact fun r hr => by cases hr
          · exact fun v hv => by cases hv
          · exact fun args hargs => (UfsAnswer.getProgress.inj hargs).symm
        · exact hquiet _ (fun r hr => by cases hr) (fun v hv => by cases hv) (fun args hargs => by cases hargs) b.release
    · exact hquiet _ (fun r hr => by cases hr) (fun v hv => by cases hv) (fun args hargs => by cases hargs) b.release
  · exact h

/-- What a service says, at a step from one state to another. -/
theorem BusInv.tells {b : UpgradeBus} (h : b.BusInv) {u : UpgradeFactorySnapshot} (hu : b.world.proc.service = some u)
    {w : World} (hw : w.proc.All TalkOK) {said : List UfsSignal}
    (hsaid : ∀ u', w.proc.service = some u' → Tells u u' said)
    (hallowed : Protocol (said.reverse.map .signal ++ b.bus)) (release : Option String) :
    ({ world := w, release := release, bus := said.reverse.map .signal ++ b.bus } : UpgradeBus).BusInv := by
  refine ⟨hw, ?_, ?_, hallowed⟩
  · intro u' hu'
    have hrun := h.running u hu
    cases hsaid u' hu' with
    | nothing hsame => exact hrun.trans hsame.symm
    | progressChanged h1 h2 => exact (hrun.trans h1).trans h2.symm
    | stopped h1 h2 => exact h2.symm
  · intro u' hu' before hbefore
    have hfresh := h.fresh u hu
    cases hsaid u' hu' with
    | nothing _ hsame =>
      have hat := hfresh before hbefore
      rcases hsame with hsame | hsame
      · rw [hsame]
        exact hat
      · -- the end of the queue, after the progress was the same or at its end already
        rw [hsame]
        rcases hat with hat | hat
        · rw [hat]
          exact .inr rfl
        · rw [hat]
          exact .inr rfl
    | progressChanged => cases hbefore
    | stopped => cases hbefore

/-- Nothing is said, and the process says as much as before. -/
theorem BusInv.silent {b : UpgradeBus} (h : b.BusInv) {w : World} (hw : w.proc.All TalkOK)
    (hframe : ∀ u', w.proc.service = some u' → ∃ u, b.world.proc.service = some u ∧
      u'.running = u.running ∧ u'.getProgress = u.getProgress) :
    ({ world := w, release := b.release, bus := b.bus } : UpgradeBus).BusInv := by
  refine ⟨hw, ?_, ?_, h.protocol⟩
  · intro u' hu'
    obtain ⟨u, hu, hrun, -⟩ := hframe u' hu'
    exact (h.running u hu).trans hrun.symm
  · intro u' hu'
    obtain ⟨u, hu, -, hprogress⟩ := hframe u' hu'
    rw [hprogress]
    exact h.fresh u hu

/-- An event that is no call, in the main loop. -/
theorem BusInv.other_up {b : UpgradeBus} (h : b.BusInv) {u : UpgradeFactorySnapshot} (hp : b.world.proc = .up u)
    {e : Sfmf.Event} (he : e.isCall = false) :
    ({ world := b.world.step e, release := b.release,
       bus := (u.signals b.world.store e).reverse.map .signal ++ b.bus } : UpgradeBus).BusInv := by
  have hu : b.world.proc.service = some u := by rw [hp]; rfl
  have htalk : u.TalkOK := h.talk.service hu
  by_cases horphan : ∃ ok, e = .orphanExit ok
  · obtain ⟨ok, rfl⟩ := horphan
    refine h.silent (step_talkOK _ h.talk) fun u' hu' => ⟨u, hu, ?_⟩
    rw [step_orphanExit, hu] at hu'
    cases hu'
    exact ⟨rfl, rfl⟩
  · push Not at horphan
    have htells : ∀ u', (b.world.step e).proc.service = some u' → Tells u u' (u.signals b.world.store e) := by
      intro u' hu'
      rw [step_up hp horphan] at hu'
      exact stepUp_tells hp htalk he hu'
    refine h.tells hu (step_talkOK e h.talk) htells ?_ b.release
    have hrun := h.running u hu
    -- at most one signal, and it is allowed
    rcases signals_cases htalk b.world.store he with hnone | ⟨hone, hr⟩ | ⟨hone, hr⟩
    · rw [hnone]
      exact h.protocol
    · rw [hone]
      exact ⟨hrun.trans hr, h.protocol⟩
    · rw [hone]
      exact ⟨hrun.trans hr, h.protocol⟩

/-- **Every event keeps the invariant.** -/
theorem BusInv.step {b : UpgradeBus} (h : b.BusInv) (e : Event) : (b.step e).BusInv := by
  cases e with
  | call callers call release => exact h.call callers call release
  | getProperty objectPath interfaceName propertyName =>
    simp only [UpgradeBus.step]
    split
    · rename_i u hp
      refine h.reply hp ?_ ?_ ?_
      · intro r hr
        unfold getPropertyCb at hr
        split at hr <;> cases hr
      · intro v hv
        unfold getPropertyCb at hv
        split at hv
        · exact (UfsAnswer.running.inj hv).symm
        · cases hv
      · intro args hargs
        unfold getPropertyCb at hargs
        split at hargs <;> cases hargs
    · exact h
  | setProperty propertyName =>
    simp only [UpgradeBus.step]
    split
    · rename_i u hp
      exact h.reply hp (fun r hr => by cases hr) (fun v hv => by cases hv) (fun args hargs => by cases hargs)
    · exact h
  | other e he =>
    cases hp : b.world.proc with
    | off =>
      by_cases hlaunch : e = .launch
      · subst hlaunch
        simp only [UpgradeBus.step, hp]
        rw [step_launch hp]
        refine ⟨talkOK_init, ?_, ?_, trivial⟩
        · intro u hu
          cases hu
          rfl
        · intro u hu before hbefore
          cases hbefore
      · rw [step_other_off hp hlaunch]
        refine h.silent (step_talkOK e h.talk) fun u' hu' => ?_
        rw [step_off hp hlaunch] at hu'
        cases hu'
    | up u =>
      rw [step_other_up hp]
      exact h.other_up hp he
    | exiting u ignored =>
      rw [step_other_exiting hp]
      refine h.silent (step_talkOK e h.talk) fun u' hu' => ?_
      by_cases horphan : ∃ ok, e = .orphanExit ok
      · obtain ⟨ok, rfl⟩ := horphan
        rw [step_orphanExit] at hu'
        exact ⟨u', hu', rfl, rfl⟩
      · push Not at horphan
        rw [step_exiting hp horphan] at hu'
        obtain ⟨q, cs, rfl⟩ := (stepExiting_cases b.world u ignored e).frame hp hu'
        exact ⟨u, by rw [hp]; rfl, rfl, rfl⟩

theorem BusInv.run {b : UpgradeBus} (h : b.BusInv) (es : List Event) : (b.run es).BusInv := by
  induction es generalizing b with
  | nil => exact h
  | cons e es ih => exact ih (h.step e)

/-- **The protocol of the service.** In every run, whatever is called by whom, and whatever the main loop, the commands,
the signals of the unpack name and the timers do: all that a process of the service puts on the bus keeps to the
protocol. -/
theorem bus_protocol (store : Store) (orphans : List SnapshotCmd) (es : List Event) :
    Protocol ((rest store orphans).run es).bus :=
  ((BusInv.rest store orphans).run es).protocol

end UpgradeBus

end Sfmf

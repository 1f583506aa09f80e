import Sfmf.Proof.UpgradeBus

/-!
# Calls that make no difference to the upgrade service

* `SameButTimer`: two worlds that differ in the idle timer at most; `SameButTimer.step`: an
  event makes no more difference than that, since a service that does not run has its idle timer on.
* `only_start_matters`: without all calls but those of `Start` that are answered with `TRUE`,
  a run is the same but for the answers.
-/

namespace Sfmf

open UpgradeFactorySnapshot

/-! ## The idle timer -/

/-- With the idle timer on or off. -/
def UpgradeFactorySnapshot.withTimer (u : UpgradeFactorySnapshot) (timer : Bool) : UpgradeFactorySnapshot :=
  { u with idleTimer := timer }

/-- The process with the idle timer on or off. -/
def Proc.withTimer (timer : Bool) : Proc → Proc
  | .off => .off
  | .up u => .up (u.withTimer timer)
  | .exiting u ignored => .exiting (u.withTimer timer) ignored

/-- **Two worlds that differ in the idle timer at most.** -/
structure SameButTimer (w w' : World) : Prop where
  store : w'.store = w.store
  proc : ∃ timer, w'.proc = w.proc.withTimer timer
  orphans : w'.orphans = w.orphans

theorem SameButTimer.refl (w : World) : SameButTimer w w := by
  refine ⟨rfl, ?_, rfl⟩
  cases w.proc with
  | off => exact ⟨true, rfl⟩
  | up u => exact ⟨u.idleTimer, rfl⟩
  | exiting u ignored => exact ⟨u.idleTimer, rfl⟩

section timer

variable (u : UpgradeFactorySnapshot) (timer : Bool)

theorem broadcastStatus_withTimer (p : String) (k : ℤ) (m : String) :
    (u.withTimer timer).broadcastStatus p k m = (u.broadcastStatus p k m).map (·.withTimer timer) := by
  unfold broadcastStatus
  simp only [withTimer]
  cases u.deployQueue.getCurrentTask <;> rfl

theorem runAsync_withTimer (spawned : Bool) :
    (u.withTimer timer).runAsync spawned = (u.runAsync spawned).map (·.withTimer timer) := by
  unfold runAsync
  rw [broadcastStatus_withTimer]
  simp only [withTimer]
  cases u.deployQueue.getCurrentTask with
  | none => rfl
  | some task =>
    cases u.broadcastStatus "" 0 "Starting" with
    | error x => rfl
    | ok v => cases spawned <;> rfl

theorem deployTaskQueueNext_withTimer (spawned : Bool) :
    (u.withTimer timer).deployTaskQueueNext spawned = (u.deployTaskQueueNext spawned).map (·.withTimer timer) := by
  obtain ⟨running, ⟨name, tasks, current, total, finished⟩, cleanupQueue, partitions, status, n, children, d, t⟩ := u
  cases finished with
  | true => rfl
  | false =>
    have hrun := runAsync_withTimer
      ⟨running, ⟨name, tasks, current + 1, total, false⟩, cleanupQueue, partitions, status, n, children, d, t⟩ timer
      spawned
    simp only [deployTaskQueueNext, withTimer, Bool.false_eq_true, if_false] at hrun ⊢
    cases DeployTaskQueue.getCurrentTask ⟨name, tasks, current + 1, total, false⟩ with
    | none => rfl
    | some task =>
      cases hcmd : task.cmd with
      | none => simp only [hcmd]; rfl
      | some c => simp only [hcmd]; exact hrun

theorem onSubprocessFinishedCb_withTimer (ok : Bool) :
    (u.withTimer timer).onSubprocessFinishedCb ok = (u.onSubprocessFinishedCb ok).map (·.withTimer timer) := by
  unfold onSubprocessFinishedCb
  rw [broadcastStatus_withTimer]
  simp only [withTimer]
  cases u.deployQueue.getCurrentTask with
  | none => rfl
  | some task =>
    simp only
    cases deployTaskHandleExitStatus task ok with
    | error x => rfl
    | ok v => cases u.broadcastStatus "" 100 "Finishing" <;> rfl

/-- A call schedules the idle timer again. -/
theorem start_withTimer : (u.withTimer timer).start.2.scheduleQuit = u.start.2.scheduleQuit := by
  have hsame : (u.withTimer timer).running = u.running := rfl
  unfold start
  rw [hsame]
  cases hrun : u.running <;> rfl

/-- The signals do not depend on the idle timer. -/
theorem signals_withTimer (store : Store) (e : Event) : (u.withTimer timer).signals store e = u.signals store e := by
  cases e <;> rfl

end timer

/-- The idle timer of a service that runs. -/
theorem stepUp_idleTimeout {w : World} {u : UpgradeFactorySnapshot} (hp : w.proc = .up u) (hrun : u.running = true) :
    w.stepUp u .idleTimeout = { w with proc := .up (u.withTimer false) } := by
  simp only [World.stepUp]
  split
  · rename_i hoff
    have hsame : u.withTimer false = u := by
      rw [withTimer, ← hoff]
    rw [hsame, ← hp]
  · rfl

/-- The idle timer of a service that does not. -/
theorem UpgradeFactorySnapshot.IdleOK.leaves {w : World} {u : UpgradeFactorySnapshot} (h : u.IdleOK)
    (hrun : u.running = false) : w.stepUp u .idleTimeout = w.exit u false := by
  simp only [World.stepUp]
  rw [if_neg (by simp [h.timer hrun]), if_neg (by simp [hrun])]

/-- A callback that does not see the idle timer goes on, or leaves the main loop, in both worlds. -/
theorem SameButTimer.resume (w w' : World) (hstore : w'.store = w.store) (horphans : w'.orphans = w.orphans)
    (u : UpgradeFactorySnapshot) (timer : Bool) (r : Exec UpgradeFactorySnapshot) :
    SameButTimer (w.resume u r) (w'.resume (u.withTimer timer) (r.map (·.withTimer timer))) := by
  cases r with
  | ok v => exact ⟨hstore, ⟨timer, rfl⟩, horphans⟩
  | error x => exact ⟨hstore, ⟨timer, rfl⟩, horphans⟩

/-- One event in the main loop. -/
theorem SameButTimer.stepUp {w w' : World} (h : SameButTimer w w') {u : UpgradeFactorySnapshot} {timer : Bool}
    (hp : w.proc = .up u) (hp' : w'.proc = .up (u.withTimer timer)) (hu : u.IdleOK) (hu' : (u.withTimer timer).IdleOK)
    (e : Event) : SameButTimer (w.stepUp u e) (w'.stepUp (u.withTimer timer) e) := by
  cases e with
  | start =>
    simp only [World.stepUp, start_withTimer]
    exact ⟨h.store, ⟨true, rfl⟩, h.orphans⟩
  | call => exact ⟨h.store, ⟨true, rfl⟩, h.orphans⟩
  | progress p k m =>
    simp only [World.stepUp, broadcastStatus_withTimer]
    exact .resume w w' h.store h.orphans u timer _
  | nextEntry spawned =>
    have hnext := deployTaskQueueNext_withTimer { u with nextEntries := u.nextEntries - 1 } timer spawned
    have hsame : (u.withTimer timer).nextEntries = u.nextEntries := rfl
    simp only [World.stepUp, hsame]
    split
    · exact h
    · simp only [withTimer] at hnext ⊢
      rw [hnext]
      exact .resume w w' h.store h.orphans { u with nextEntries := u.nextEntries - 1 } timer _
  | childExit i ok =>
    simp only [World.stepUp, withTimer, h.store]
    split
    · exact h
    · rename_i c hc
      have hdone := onSubprocessFinishedCb_withTimer { u with children := u.children.eraseIdx i } timer
        (c.run ok w.store).1
      simp only [withTimer] at hdone
      rw [hdone]
      exact .resume { w with store := (c.run ok w.store).2 } { w' with store := (c.run ok w.store).2 } rfl h.orphans
        { u with children := u.children.eraseIdx i } timer _
  | delayedFinish =>
    have hsame : (u.withTimer timer).delayedFinishes = u.delayedFinishes := rfl
    simp only [World.stepUp, hsame]
    split
    · exact h
    · exact ⟨h.store, ⟨true, rfl⟩, h.orphans⟩
  | idleTimeout =>
    cases hrun : u.running with
    | true =>
      rw [stepUp_idleTimeout hp hrun, stepUp_idleTimeout hp' hrun]
      exact ⟨h.store, ⟨false, rfl⟩, h.orphans⟩
    | false =>
      -- both idle timers are on, and both services leave
      rw [hu.leaves hrun, hu'.leaves hrun]
      exact ⟨h.store, ⟨timer, rfl⟩, h.orphans⟩
  | quit ignored => exact ⟨h.store, ⟨timer, rfl⟩, h.orphans⟩
  | _ => exact h

theorem SameButTimer.gone (w w' : World) (hstore : w'.store = w.store) (horphans : w'.orphans = w.orphans)
    (u : UpgradeFactorySnapshot) (timer : Bool) : SameButTimer (w.gone u) (w'.gone (u.withTimer timer)) := by
  refine ⟨hstore, ⟨timer, rfl⟩, ?_⟩
  simp only [World.gone, withTimer, horphans]

/-- One event in the cleanup. -/
theorem SameButTimer.stepExiting {w w' : World} (h : SameButTimer w w') (u : UpgradeFactorySnapshot) (timer ignored : Bool)
    (e : Event) : SameButTimer (w.stepExiting u ignored e) (w'.stepExiting (u.withTimer timer) ignored e) := by
  cases e with
  | cleanup ok =>
    have hcleaned : ∀ v : UpgradeFactorySnapshot,
        SameButTimer (w.cleaned v ignored) (w'.cleaned (v.withTimer timer) ignored) := by
      intro v
      cases ignored with
      | true => exact ⟨h.store, ⟨timer, rfl⟩, h.orphans⟩
      | false => exact .gone w w' h.store h.orphans v timer
    have hq : (u.withTimer timer).cleanupQueue = u.cleanupQueue := rfl
    simp only [World.stepExiting, hq, h.store]
    split
    · exact hcleaned u
    · split
      · exact .gone w w' h.store h.orphans u timer
      · split
        · exact hcleaned _
        · rename_i c hc
          split
          · exact ⟨rfl, ⟨timer, rfl⟩, h.orphans⟩
          · exact .gone { w with store := (c.run ok w.store).2 } { w' with store := (c.run ok w.store).2 } rfl h.orphans
              u timer
  | childExit i ok =>
    simp only [World.stepExiting, withTimer, h.store]
    split
    · exact h
    · split
      · exact h
      · exact ⟨rfl, ⟨timer, rfl⟩, h.orphans⟩
  | cut => exact .gone w w' h.store h.orphans u timer
  | _ => exact h

/-- Nothing but a launch happens to a process that is not there. -/
theorem step_off_same {w : World} {e : Event} (hp : w.proc = .off) (he : e ≠ .launch) (horphan : ∀ ok, e ≠ .orphanExit ok) :
    w.step e = w := by
  cases e with
  | orphanExit ok => exact absurd rfl (horphan ok)
  | launch => exact absurd rfl he
  | _ => simp [World.step, hp]

/-- **An event makes no more difference than there is.** -/
theorem SameButTimer.step {w w' : World} (h : SameButTimer w w') (hidle : w.proc.All IdleOK)
    (hidle' : w'.proc.All IdleOK) (e : Event) : SameButTimer (w.step e) (w'.step e) := by
  by_cases horphan : ∃ ok, e = .orphanExit ok
  · obtain ⟨ok, rfl⟩ := horphan
    have hsame := h.orphans
    cases ho : w.orphans with
    | nil =>
      rw [ho] at hsame
      simp only [World.step, ho, hsame]
      exact h
    | cons c cs =>
      rw [ho] at hsame
      simp only [World.step, ho, hsame, h.store]
      exact ⟨rfl, h.proc, rfl⟩
  push Not at horphan
  obtain ⟨timer, hproc⟩ := h.proc
  cases hp : w.proc with
  | off =>
    rw [hp] at hproc
    have hp' : w'.proc = .off := hproc
    by_cases hlaunch : e = .launch
    · subst hlaunch
      rw [step_launch hp, step_launch hp']
      exact ⟨h.store, ⟨true, rfl⟩, h.orphans⟩
    · rw [step_off_same hp hlaunch horphan, step_off_same hp' hlaunch horphan]
      exact h
  | up u =>
    rw [hp] at hproc hidle
    have hp' : w'.proc = .up (u.withTimer timer) := hproc
    rw [hp'] at hidle'
    rw [step_up hp horphan, step_up hp' horphan]
    exact h.stepUp hp hp' hidle hidle' e
  | exiting u ignored =>
    rw [hp] at hproc
    have hp' : w'.proc = .exiting (u.withTimer timer) ignored := hproc
    rw [step_exiting hp horphan, step_exiting hp' horphan]
    exact h.stepExiting u timer ignored e

/-! ## Calls that make no difference -/

/-- The signal of a message, if it is one. -/
def UfsMessage.signal? : UfsMessage → Option UfsSignal
  | .signal s => some s
  | .answer _ => none

section call

variable {u : UpgradeFactorySnapshot} {env : Option String} {callers : Callers} {c : MethodCall} {release : String}

/-- The answer `TRUE`. -/
theorem methodCallCb_true (h : (u.methodCallCb env callers c release).answer = .start true) {v : UpgradeFactorySnapshot}
    (hv : v.running = u.running) (env' : Option String) : v.methodCallCb env' callers c release =
      ⟨.start true, [.propertiesChanged true], v.start.2.scheduleQuit, if release = "" then env' else some release⟩ := by
  unfold methodCallCb at h
  split at h
  · rename_i hserves
    split at h
    · rename_i hstart
      split at h
      · cases h
      · rename_i hrun
        have hrun' : ¬ v.running = true := by rwa [hv]
        unfold methodCallCb
        rw [if_pos hserves, if_pos hstart, if_neg hrun', setRunningSignals, if_neg hrun']
    · split at h <;> cases h
  · cases h

/-- Any other answer. -/
theorem methodCallCb_other (h : (u.methodCallCb env callers c release).answer ≠ .start true) :
    (u.methodCallCb env callers c release).signals = [] ∧
      (u.methodCallCb env callers c release).service = u.scheduleQuit ∧
      (u.methodCallCb env callers c release).release = env := by
  unfold methodCallCb at h ⊢
  split
  · split
    · split
      · rename_i hrun
        refine ⟨rfl, ?_, rfl⟩
        simp only [start, if_pos hrun]
      · rename_i hserves hstart hrun
        rw [if_pos hserves, if_pos hstart, if_neg hrun] at h
        exact absurd rfl h
    · split <;> exact ⟨rfl, rfl, rfl⟩
  · exact ⟨rfl, rfl, rfl⟩

end call

namespace UpgradeBus

/-- Whether an event is more than a read or a write of a property, or a call that is not answered with `TRUE`. -/
def Event.matters (b : UpgradeBus) : Event → Bool
  | .call callers c release =>
    match b.world.proc with
    | .up u => (u.methodCallCb b.release callers c release).answer = .start true
    | _ => false
  | .getProperty _ _ _ => false
  | .setProperty _ => false
  | .other _ _ => true

/-- The events of a run that matter. -/
def mattering : UpgradeBus → List Event → List Event
  | _, [] => []
  | b, e :: es => if e.matters b then e :: mattering (b.step e) es else mattering (b.step e) es

/-- The signals, the latest first. -/
def signals (b : UpgradeBus) : List UfsSignal := b.bus.filterMap UfsMessage.signal?

/-- Two services that differ in their answers and the idle timer at most. -/
structure SameButAnswers (b b' : UpgradeBus) : Prop where
  world : SameButTimer b.world b'.world
  release : b'.release = b.release
  signals : b'.signals = b.signals

theorem filterMap_signal (said : List UfsSignal) (bus : List UfsMessage) :
    (said.map UfsMessage.signal ++ bus).filterMap UfsMessage.signal? = said ++ bus.filterMap UfsMessage.signal? := by
  induction said with
  | nil => rfl
  | cons s said ih => exact congrArg (s :: ·) ih

/-- An event that is no call. -/
theorem SameButAnswers.other {b b' : UpgradeBus} (h : SameButAnswers b b') (hb : b.BusInv) (hb' : b'.BusInv)
    {e : Sfmf.Event} (he : e.isCall = false) : SameButAnswers (b.step (.other e he)) (b'.step (.other e he)) := by
  have hidle : ∀ {c : UpgradeBus}, c.BusInv → c.world.proc.All IdleOK := fun hc =>
    Proc.all_service.2 fun u hu => (hc.talk.service hu).idle
  have hworld := h.world.step (hidle hb) (hidle hb') e
  obtain ⟨timer, hproc⟩ := h.world.proc
  cases hp : b.world.proc with
  | off =>
    rw [hp] at hproc
    have hp' : b'.world.proc = .off := hproc
    by_cases hlaunch : e = .launch
    · subst hlaunch
      simp only [step, hp, hp']
      exact ⟨hworld, rfl, rfl⟩
    · rw [step_other_off hp hlaunch, step_other_off hp' hlaunch]
      exact ⟨hworld, h.release, h.signals⟩
  | up u =>
    rw [hp] at hproc
    have hp' : b'.world.proc = .up (u.withTimer timer) := hproc
    rw [step_other_up hp, step_other_up hp']
    refine ⟨hworld, h.release, ?_⟩
    simp only [UpgradeBus.signals, filterMap_signal, signals_withTimer, h.world.store]
    exact congrArg _ h.signals
  | exiting u ignored =>
    rw [hp] at hproc
    have hp' : b'.world.proc = .exiting (u.withTimer timer) ignored := hproc
    rw [step_other_exiting hp, step_other_exiting hp']
    exact ⟨hworld, h.release, h.signals⟩

/-- A call that is answered with `TRUE` is so in both. -/
theorem SameButAnswers.start {b b' : UpgradeBus} (h : SameButAnswers b b') {callers : Callers} {c : MethodCall}
    {release : String} (hmatters : (Event.call callers c release).matters b = true) :
    SameButAnswers (b.step (.call callers c release)) (b'.step (.call callers c release)) := by
  obtain ⟨timer, hproc⟩ := h.world.proc
  cases hp : b.world.proc with
  | off => simp only [Event.matters, hp] at hmatters; cases hmatters
  | exiting u ignored => simp only [Event.matters, hp] at hmatters; cases hmatters
  | up u =>
    rw [hp] at hproc
    have hp' : b'.world.proc = .up (u.withTimer timer) := hproc
    simp only [Event.matters, hp, decide_eq_true_eq] at hmatters
    simp only [step, hp, hp', methodCallCb_true hmatters rfl b.release,
      methodCallCb_true hmatters (show (u.withTimer timer).running = u.running from rfl) b'.release, start_withTimer]
    refine ⟨⟨h.world.store, ⟨true, rfl⟩, h.world.orphans⟩, by rw [h.release], ?_⟩
    exact congrArg (UfsSignal.propertiesChanged true :: ·) h.signals

/-- A call that is not leaves everything but the idle timer as it is. -/
theorem SameButAnswers.ignore {b b' : UpgradeBus} (h : SameButAnswers b b') {e : Event} (he : e.matters b = false) :
    SameButAnswers (b.step e) b' := by
  obtain ⟨timer, hproc⟩ := h.world.proc
  cases e with
  | other e hcall => cases he
  | getProperty objectPath interfaceName propertyName =>
    simp only [step]
    split
    · exact ⟨h.world, h.release, h.signals⟩
    · exact h
  | setProperty propertyName =>
    simp only [step]
    split
    · exact ⟨h.world, h.release, h.signals⟩
    · exact h
  | call callers c release =>
    cases hp : b.world.proc with
    | off => simp only [step, hp]; exact h
    | exiting u ignored => simp only [step, hp]; exact h
    | up u =>
      rw [hp] at hproc
      simp only [Event.matters, hp, decide_eq_false_iff_not] at he
      obtain ⟨hsignals, hservice, hrelease⟩ := methodCallCb_other he
      simp only [step, hp, hsignals, hservice, hrelease]
      exact ⟨⟨h.world.store, ⟨timer, hproc⟩, h.world.orphans⟩, h.release, h.signals⟩

/-- **Only a `Start` that is answered with `TRUE` matters.** In every run, all other calls and all reads and writes of the
property can be left out: what becomes of the snapshots, the tasks, the signals and the environment of the commands is
the same. -/
theorem only_start_matters (store : Store) (orphans : List SnapshotCmd) (es : List Event) :
    SameButAnswers ((rest store orphans).run es) ((rest store orphans).run (mattering (rest store orphans) es)) := by
  suffices h : ∀ b b' : UpgradeBus, b.BusInv → b'.BusInv → SameButAnswers b b' →
      SameButAnswers (b.run es) (b'.run (mattering b es)) from
    h _ _ (.rest store orphans) (.rest store orphans) ⟨.refl _, rfl, rfl⟩
  induction es with
  | nil => exact fun b b' _ _ h => h
  | cons e es ih =>
    intro b b' hb hb' h
    cases he : e.matters b with
    | true =>
      rw [mattering, he, if_pos rfl]
      refine ih _ _ (hb.step e) (hb'.step e) ?_
      cases e with
      | call callers call release => exact h.start he
      | getProperty objectPath interfaceName propertyName => cases he
      | setProperty propertyName => cases he
      | other e hcall => exact h.other hb hb' hcall
    | false =>
      rw [mattering, he, if_neg (by simp)]
      exact ih _ _ (hb.step e) hb' (h.ignore he)

end UpgradeBus

end Sfmf

import Sfmf.Lib.Exec
import Sfmf.Lib.Trace

/-!
# The upgrade service (`tools/upgrade-factory-snapshot.c`)

The service deploys a new factory snapshot by running `sailfish-snapshot`
commands one after another from a main loop. The state of the process is
`UpgradeFactorySnapshot`: the two task queues, the `running` flag, the last
progress, and the main-loop sources that are pending (idle callbacks, the children
being watched, the two timers). The world around it is the set of snapshots
(`Store`), which survives the process.

One event of the main loop, of the bus, or from outside is one `World.step`.
-/

namespace Sfmf

/-! ## Snapshots and commands -/

/-- The snapshots the service names: `FACTORY_NAME`, `FACTORY_RENAME`, `SNAPSHOT_NAME`. -/
inductive SnapshotName where
  | factory
  | factoryOld
  | factorySlipstreamTmp
  deriving DecidableEq, Repr

/-- What a snapshot holds. -/
inductive Image where
  | complete
  | incomplete
  deriving DecidableEq, Repr

/-- The snapshots on the device. -/
abbrev Store := SnapshotName → Option Image

/-- The command lines of the tasks, all of them calls of `sailfish-snapshot`. -/
inductive SnapshotCmd where
  | list
  | delete (x : SnapshotName)
  | deploy (x : SnapshotName)
  | rename (a b : SnapshotName)
  deriving DecidableEq, Repr

/-- The effect of a command that succeeds; `none` when it cannot succeed. -/
def SnapshotCmd.exec : SnapshotCmd → Store → Option Store
  | .list, s => some s
  | .delete x, s => if s x = none then none else some (Function.update s x none)
  | .deploy x, s => some (Function.update s x (some .complete))
  | .rename a b, s =>
    match s a with
    | none => none
    | some i =>
      if s b = none then some (Function.update (Function.update s a none) b (some i)) else none

/-- Run a command. `ok` says whether it is given the chance to succeed; the result
is its exit status, and a command that fails has no effect. -/
def SnapshotCmd.run (c : SnapshotCmd) (ok : Bool) (s : Store) : Bool × Store :=
  if ok then
    match c.exec s with
    | some s' => (true, s')
    | none => (false, s)
  else (false, s)

/-! ## Task queues -/

/-- `struct DeployTask`. -/
structure DeployTask where
  name : Option String
  cmd : Option SnapshotCmd
  checked : Bool
  deriving DecidableEq, Repr

/-- `struct DeployTaskQueue`; the callbacks are the ones `g_deploy_queue` sets. -/
structure DeployTaskQueue where
  name : String
  tasks : List DeployTask
  current : ℤ
  total : ℤ
  finished : Bool
  deriving DecidableEq, Repr

/-- `g_deploy_tasks`. -/
def gDeployTasks : List DeployTask := [
  ⟨some "Checking for existing snapshots", some .list, true⟩,
  ⟨some "Removing temporary snapshot", some (.delete .factorySlipstreamTmp), false⟩,
  ⟨some "Deploying new factory snapshot", some (.deploy .factorySlipstreamTmp), true⟩,
  ⟨some "Removing renamed factory snapshot", some (.delete .factoryOld), false⟩,
  ⟨some "Renaming factory snapshot", some (.rename .factory .factoryOld), true⟩,
  ⟨some "Activating new factory snapshot", some (.rename .factorySlipstreamTmp .factory), true⟩,
  ⟨some "Removing renamed factory snapshot", some (.delete .factoryOld), false⟩,
  ⟨some "Enumerating snapshots", some .list, false⟩,
  ⟨none, none, false⟩]

/-- `g_cleanup_tasks`. -/
def gCleanupTasks : List DeployTask := [
  ⟨some "Deleting temporary snapshot", some (.delete .factorySlipstreamTmp), false⟩,
  ⟨some "Enumerating snapshots", some .list, false⟩,
  ⟨none, none, false⟩]

/-- The number of tasks before the terminator, as `upgrade_factory_snapshot_init` counts them. -/
def countTasks (tasks : List DeployTask) : ℤ := (tasks.takeWhile fun t => t.cmd.isSome).length

/-- `g_deploy_queue` after `upgrade_factory_snapshot_init`. -/
def gDeployQueue : DeployTaskQueue := ⟨"deploy", gDeployTasks, -1, countTasks gDeployTasks, false⟩

/-- `g_cleanup_queue` after `upgrade_factory_snapshot_init`. -/
def gCleanupQueue : DeployTaskQueue := ⟨"cleanup", gCleanupTasks, -1, countTasks gCleanupTasks, false⟩

/-- `deploy_task_queue_get_current_task`. -/
def DeployTaskQueue.getCurrentTask (q : DeployTaskQueue) : Option DeployTask :=
  if 0 ≤ q.current then q.tasks[q.current.toNat]? else none

/-- `deploy_task_queue_abort`. -/
def DeployTaskQueue.abort (q : DeployTaskQueue) : DeployTaskQueue := { q with finished := true }

/-- `deploy_task_handle_exit_status`: a failure of a checked task ends the process. -/
def deployTaskHandleExitStatus (task : DeployTask) (ok : Bool) : Exec Unit :=
  if ok = false ∧ task.checked = true then failAndExit "Failed to run command: %s\n" else .ok ()

/-! ## The service -/

/-- The `status` field: the last progress seen. -/
structure UpgradeStatus where
  partition : Option String
  progress : ℤ
  message : Option String
  partitionCurrent : ℤ
  partitionTotal : ℤ
  deriving DecidableEq, Repr

/-- `struct UpgradeFactorySnapshot`, with the pending main-loop sources. -/
structure UpgradeFactorySnapshot where
  running : Bool
  deployQueue : DeployTaskQueue
  cleanupQueue : DeployTaskQueue
  partitions : List String
  status : UpgradeStatus
  /-- pending `upgrade_factory_snapshot_do_next_entry_cb` callbacks -/
  nextEntries : ℕ
  /-- the commands of the children being watched, in the order of their launch -/
  children : List SnapshotCmd
  /-- pending `upgrade_factory_snapshot_delayed_finish_cb` timers -/
  delayedFinishes : ℕ
  /-- the idle timer is running -/
  idleTimer : Bool
  deriving DecidableEq, Repr

/-- `g_ufs` when the main loop starts: the name is acquired and the idle timer runs. -/
def gUfs : UpgradeFactorySnapshot where
  running := false
  deployQueue := gDeployQueue
  cleanupQueue := gCleanupQueue
  partitions := ["@", "@home"]
  status := ⟨none, 0, none, 0, 0⟩
  nextEntries := 0
  children := []
  delayedFinishes := 0
  idleTimer := true

namespace UpgradeFactorySnapshot

/-- `upgrade_factory_snapshot_broadcast_status`. -/
def broadcastStatus (u : UpgradeFactorySnapshot) (partition : String) (progress : ℤ)
    (message : String) : Exec UpgradeFactorySnapshot :=
  match u.deployQueue.getCurrentTask with
  | none => failAndExit "Current task is invalid\n"
  | some _ =>
    let k := u.partitions.findIdx (· = partition)
    let (cur, tot) := if k = u.partitions.length then (0, 1) else (k, u.partitions.length)
    .ok { u with status := ⟨some partition, progress, some message, cur, tot⟩ }

/-- `upgrade_factory_snapshot_schedule_quit`. -/
def scheduleQuit (u : UpgradeFactorySnapshot) : UpgradeFactorySnapshot := { u with idleTimer := true }

/-- `upgrade_factory_snapshot_set_running`. -/
def setRunning (u : UpgradeFactorySnapshot) (running : Bool) : UpgradeFactorySnapshot :=
  { u with running := running }

/-- `deploy_task_queue_run_async`; `spawned` is the result of `g_spawn_async`. -/
def runAsync (u : UpgradeFactorySnapshot) (spawned : Bool) : Exec UpgradeFactorySnapshot :=
  match u.deployQueue.getCurrentTask with
  | none => failAndExit "Current task is invalid\n"
  | some task => do
    let u ← u.broadcastStatus "" 0 "Starting"
    if spawned then .ok { u with children := u.children ++ task.cmd.toList }
    else failAndExit "Failed to run command: %s\n"

/-- `upgrade_factory_snapshot_finished_cb`. -/
def finishedCb (u : UpgradeFactorySnapshot) : UpgradeFactorySnapshot :=
  { u with deployQueue := { u.deployQueue with current := -1 }, delayedFinishes := u.delayedFinishes + 1 }

/-- `deploy_task_queue_next(deploy_queue, 1)`. -/
def deployTaskQueueNext (u : UpgradeFactorySnapshot) (spawned : Bool) : Exec UpgradeFactorySnapshot :=
  if u.deployQueue.finished then .ok u
  else
    let u := { u with deployQueue := { u.deployQueue with current := u.deployQueue.current + 1 } }
    match u.deployQueue.getCurrentTask with
    | none => failAndExit "Current task is invalid\n"
    | some task =>
      match task.cmd with
      | some _ => u.runAsync spawned
      | none =>
        let u := u.finishedCb
        -- set after the callback, which has reset `current`
        .ok { u with deployQueue := { u.deployQueue with finished := true } }

/-- `upgrade_factory_snapshot_task_done_cb`. -/
def taskDoneCb (u : UpgradeFactorySnapshot) : UpgradeFactorySnapshot :=
  { u with nextEntries := u.nextEntries + 1 }

/-- `deploy_task_queue_on_subprocess_finished_cb` on the deploy queue. -/
def onSubprocessFinishedCb (u : UpgradeFactorySnapshot) (ok : Bool) : Exec UpgradeFactorySnapshot :=
  match u.deployQueue.getCurrentTask with
  | none => failAndExit "Current task is invalid\n"
  | some task => do
    deployTaskHandleExitStatus task ok
    let u ← u.broadcastStatus "" 100 "Finishing"
    .ok u.taskDoneCb

/-- The `Start` method: its answer, and the new state. -/
def start (u : UpgradeFactorySnapshot) : Bool × UpgradeFactorySnapshot :=
  if u.running then (false, u)
  else (true, { u with nextEntries := u.nextEntries + 1 }.setRunning true)

end UpgradeFactorySnapshot

/-! ## The world and its events -/

/-- The service's process. -/
inductive Proc where
  /-- no process -/
  | off
  /-- in the main loop -/
  | up (u : UpgradeFactorySnapshot)
  /-- in `upgrade_factory_snapshot_cleanup_cb`, working through the cleanup queue; `ignored` if a signal
  handler called it, which will raise the signal again and have it ignored -/
  | exiting (u : UpgradeFactorySnapshot) (ignored : Bool)
  deriving DecidableEq, Repr

/-- The snapshots, the process, and commands whose process has gone while they ran. -/
structure World where
  store : Store
  proc : Proc
  orphans : List SnapshotCmd

/-- What can happen next. -/
inductive Event where
  /-- the bus activates the service -/
  | launch
  /-- a privileged client calls `Start` -/
  | start
  /-- any other method call -/
  | call
  /-- a `Progress` signal of the unpack name -/
  | progress (partition : String) (progress : ℤ) (message : String)
  /-- any other signal of it -/
  | otherSignal
  /-- the main loop runs `do_next_entry_cb` -/
  | nextEntry (spawned : Bool)
  /-- the `i`-th of the children being watched exits -/
  | childExit (i : ℕ) (ok : Bool)
  /-- a command left behind by an earlier process ends -/
  | orphanExit (ok : Bool)
  /-- the one-second timer of `finished_cb` fires -/
  | delayedFinish
  /-- the idle timer fires -/
  | idleTimeout
  /-- a signal, or an exit outside the task queue (the bus name is lost); `ignored` for a signal that
  was ignored before the cleanup was registered -/
  | quit (ignored : Bool)
  /-- the cleanup queue makes its next step -/
  | cleanup (ok : Bool)
  /-- the process is gone before its cleanup is done -/
  | cut
  deriving DecidableEq, Repr

/-- Leave the main loop: the cleanup aborts the deploy queue and starts the cleanup queue. -/
def World.exit (w : World) (u : UpgradeFactorySnapshot) (ignored : Bool) : World :=
  { w with proc := .exiting { u with deployQueue := u.deployQueue.abort } ignored }

/-- The process ends. Children still in flight are not waited for. -/
def World.gone (w : World) (u : UpgradeFactorySnapshot) : World :=
  { w with proc := .off, orphans := u.children ++ w.orphans }

/-- Continue in the main loop, or leave it if a callback ended the process. -/
def World.resume (w : World) (u : UpgradeFactorySnapshot) (r : Exec UpgradeFactorySnapshot) : World :=
  match r with
  | .ok u' => { w with proc := .up u' }
  | .error _ => w.exit u false

/-- One event at a process in its main loop. -/
def World.stepUp (w : World) (u : UpgradeFactorySnapshot) : Event → World
  | .start => { w with proc := .up u.start.2.scheduleQuit }
  | .call => { w with proc := .up u.scheduleQuit }
  | .progress p k m => w.resume u (u.broadcastStatus p k m)
  | .nextEntry spawned =>
    if u.nextEntries = 0 then w
    else
      let u := { u with nextEntries := u.nextEntries - 1 }
      w.resume u (u.deployTaskQueueNext spawned)
  | .childExit i ok =>
    match u.children[i]? with
    | none => w
    | some c =>
      let (ok, store) := c.run ok w.store
      let u := { u with children := u.children.eraseIdx i }
      { w with store := store }.resume u (u.onSubprocessFinishedCb ok)
  | .delayedFinish =>
    if u.delayedFinishes = 0 then w
    else { w with proc := .up ({ u with delayedFinishes := u.delayedFinishes - 1 }.setRunning false).scheduleQuit }
  | .idleTimeout =>
    if u.idleTimer = false then w
    else if u.running then { w with proc := .up { u with idleTimer := false } }
    else w.exit u false
  | .quit ignored => w.exit u ignored
  | _ => w

/-- What follows the cleanup: the end of the process, or, in a signal handler, the signal once more, which
returns to the main loop if it is ignored. -/
def World.cleaned (w : World) (u : UpgradeFactorySnapshot) (ignored : Bool) : World :=
  if ignored then { w with proc := .up u } else w.gone u

/-- One event at a process in its cleanup callback: `deploy_task_queue_next(cleanup_queue, 0)`. The main
loop does not run meanwhile. -/
def World.stepExiting (w : World) (u : UpgradeFactorySnapshot) (ignored : Bool) : Event → World
  | .cleanup ok =>
    -- a cleanup that was run before is not run again
    if u.cleanupQueue.finished then w.cleaned u ignored
    else
      let q := { u.cleanupQueue with current := u.cleanupQueue.current + 1 }
      match q.getCurrentTask with
      | none => w.gone u
      | some task =>
        match task.cmd with
        | none => w.cleaned { u with cleanupQueue := { q with finished := true } } ignored
        | some c =>
          let (ok, store) := c.run ok w.store
          match deployTaskHandleExitStatus task ok with
          | .ok _ => { w with store := store, proc := .exiting { u with cleanupQueue := q } ignored }
          | .error _ => { w with store := store }.gone u
  | .childExit i ok =>
    match u.children[i]? with
    | none => w
    | some c =>
      -- a main loop that will run again sees the exit only then
      if ignored then w
      else { w with store := (c.run ok w.store).2, proc := .exiting { u with children := u.children.eraseIdx i } ignored }
  | .cut => w.gone u
  | _ => w

/-- **One event.** An event that cannot happen leaves the world as it is. -/
def World.step (w : World) (e : Event) : World :=
  match e, w.orphans with
  | .orphanExit ok, c :: cs => { w with store := (c.run ok w.store).2, orphans := cs }
  | .orphanExit _, [] => w
  | e, _ =>
    match w.proc with
    | .off => if e = .launch then { w with proc := .up gUfs } else w
    | .up u => w.stepUp u e
    | .exiting u ignored => w.stepExiting u ignored e

/-- The world after the first `n` events. -/
abbrev wAt (w : World) (es : List Event) (n : ℕ) : World := stateAt World.step w es n

end Sfmf

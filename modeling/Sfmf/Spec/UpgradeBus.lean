import Sfmf.Spec.Upgrade
import Sfmf.Spec.Control

/-!
# The upgrade service on the bus (`tools/upgrade-factory-snapshot.c`)

What the service says: its signals, and its answers to method calls and to reads and writes
of its property. A call is an event of its own here, with its caller, and its effect on the
service is that of `Event.start` or `Event.call`.
-/

namespace Sfmf

/-! ## Messages -/

/-- `UFS_DBUS_PATH`. -/
def ufsDbusPath : String := "/"

/-- `UFS_DBUS_INTERFACE`. -/
def ufsDbusInterface : String := "org.sailfishos.slipstream.upgrade"

/-- The signals of the service. -/
inductive UfsSignal where
  | progressChanged
  | propertiesChanged (running : Bool)
  deriving DecidableEq, Repr

/-- The values of an answer to `GetProgress`. The task name is `none` for a `NULL`, which is no string of the bus. -/
structure UfsProgress where
  queueName : String
  taskName : Option String
  queuePos : ℤ
  queueTotal : ℤ
  partitionName : String
  partitionPos : ℤ
  partitionTotal : ℤ
  message : String
  progress : ℤ
  deriving DecidableEq, Repr

/-- An answer of the service. -/
inductive UfsAnswer where
  | start (result : Bool)
  | getProgress (args : UfsProgress)
  | running (value : Bool)
  | dbusError (name message : String)
  deriving DecidableEq, Repr

/-- What the service puts on the bus. -/
inductive UfsMessage where
  | signal (s : UfsSignal)
  | answer (a : UfsAnswer)
  deriving DecidableEq, Repr

namespace UpgradeFactorySnapshot

/-! ## The signals of each function -/

/-- The signal of `upgrade_factory_snapshot_broadcast_status`. -/
def broadcastStatusSignals (u : UpgradeFactorySnapshot) : List UfsSignal :=
  match u.deployQueue.getCurrentTask with
  | none => []
  | some _ => [.progressChanged]

/-- The signal of `upgrade_factory_snapshot_set_running`. -/
def setRunningSignals (u : UpgradeFactorySnapshot) (running : Bool) : List UfsSignal :=
  if u.running = running then [] else [.propertiesChanged running]

/-- The signals of `deploy_task_queue_run_async`, sent before the command is launched. -/
def runAsyncSignals (u : UpgradeFactorySnapshot) : List UfsSignal :=
  match u.deployQueue.getCurrentTask with
  | none => []
  | some _ => u.broadcastStatusSignals

/-- The signals of `deploy_task_queue_next(deploy_queue, 1)`. -/
def deployTaskQueueNextSignals (u : UpgradeFactorySnapshot) : List UfsSignal :=
  if u.deployQueue.finished then []
  else
    let u := { u with deployQueue := { u.deployQueue with current := u.deployQueue.current + 1 } }
    match u.deployQueue.getCurrentTask with
    | none => []
    | some task =>
      match task.cmd with
      | some _ => u.runAsyncSignals
      | none => []

/-- The signals of `deploy_task_queue_on_subprocess_finished_cb`. -/
def onSubprocessFinishedCbSignals (u : UpgradeFactorySnapshot) (ok : Bool) : List UfsSignal :=
  match u.deployQueue.getCurrentTask with
  | none => []
  | some task =>
    match deployTaskHandleExitStatus task ok with
    | .ok _ => u.broadcastStatusSignals
    | .error _ => []

/-- The signals of the callback that an event runs in the main loop. -/
def signals (u : UpgradeFactorySnapshot) (store : Store) : Event → List UfsSignal
  | .progress _ _ _ => u.broadcastStatusSignals
  | .nextEntry _ => if u.nextEntries = 0 then [] else u.deployTaskQueueNextSignals
  | .childExit i ok =>
    match u.children[i]? with
    | none => []
    | some c => u.onSubprocessFinishedCbSignals (c.run ok store).1
  | .delayedFinish => if u.delayedFinishes = 0 then [] else u.setRunningSignals false
  | _ => []

/-! ## Calls -/

/-- The answer to `GetProgress`. -/
def getProgress (u : UpgradeFactorySnapshot) : UfsProgress where
  queueName := u.deployQueue.name
  taskName :=
    match u.deployQueue.getCurrentTask with
    | some task => task.name
    | none => some ""
  queuePos := u.deployQueue.current + 1
  queueTotal := u.deployQueue.total
  partitionName := u.status.partition.getD ""
  partitionPos := u.status.partitionCurrent + 1
  partitionTotal := u.status.partitionTotal
  message := u.status.message.getD ""
  progress := u.status.progress

/-- Whether a call is one that the service serves. -/
def serves (callers : Callers) (call : MethodCall) : Bool :=
  call.objectPath = some ufsDbusPath ∧ call.interfaceName = some ufsDbusInterface ∧
    sfmfDbusIsPrivileged callers call.sender = true

/-- What `upgrade_factory_snapshot_method_call_cb` does: the answer, the signals before it, the service, and
`SSU_SLIPSTREAM_RELEASE` in the environment. -/
structure Called where
  answer : UfsAnswer
  signals : List UfsSignal
  service : UpgradeFactorySnapshot
  release : Option String

/-- The error of a call that is not valid. -/
def invalidMethodCall : UfsAnswer := .dbusError (ufsDbusInterface ++ ".MethodCallError") "Invalid method call"

/-- `upgrade_factory_snapshot_method_call_cb`; `release` is the parameter of `Start`, and `env` the variable so far. -/
def methodCallCb (u : UpgradeFactorySnapshot) (env : Option String) (callers : Callers) (call : MethodCall)
    (release : String) : Called :=
  if serves callers call then
    if call.methodName = some "Start" then
      if u.running then ⟨.start false, [], u.start.2.scheduleQuit, env⟩
      else ⟨.start true, u.setRunningSignals true, u.start.2.scheduleQuit,
        if release = "" then env else some release⟩
    else if call.methodName = some "GetProgress" then ⟨.getProgress u.getProgress, [], u.scheduleQuit, env⟩
    else ⟨invalidMethodCall, [], u.scheduleQuit, env⟩
  else ⟨invalidMethodCall, [], u.scheduleQuit, env⟩

/-- `upgrade_factory_snapshot_get_property_cb`. -/
def getPropertyCb (u : UpgradeFactorySnapshot) (objectPath interfaceName propertyName : Option String) : UfsAnswer :=
  if objectPath = some ufsDbusPath ∧ interfaceName = some ufsDbusInterface ∧ propertyName = some "running" then
    .running u.running
  else .dbusError "org.freedesktop.DBus.Error.Failed" ("Cannot get property '" ++ propertyName.getD "(null)" ++ "'")

/-- `upgrade_factory_snapshot_set_property_cb`. -/
def setPropertyCb (propertyName : Option String) : UfsAnswer :=
  .dbusError "org.freedesktop.DBus.Error.Failed" ("Cannot set property '" ++ propertyName.getD "(null)" ++ "'")

end UpgradeFactorySnapshot

/-! ## The world with the bus -/

/-- Whether an event stands for a method call. -/
def Event.isCall : Event → Bool
  | .start => true
  | .call => true
  | _ => false

/-- The world, the variable `SSU_SLIPSTREAM_RELEASE` of the service's process, and what this process, or
the last one, has put on the bus, the latest first. -/
structure UpgradeBus where
  world : World
  release : Option String
  bus : List UfsMessage

namespace UpgradeBus

/-- What can happen next. -/
inductive Event where
  /-- a method call -/
  | call (callers : Callers) (call : MethodCall) (release : String)
  /-- a read of a property -/
  | getProperty (objectPath interfaceName propertyName : Option String)
  /-- a write of a property -/
  | setProperty (propertyName : Option String)
  /-- anything else -/
  | other (e : Sfmf.Event) (he : e.isCall = false)

/-- An answer by the main loop. -/
def reply (b : UpgradeBus) (a : UfsAnswer) : UpgradeBus := { b with bus := .answer a :: b.bus }

/-- **One event.** Calls are only answered by a process in its main loop, and a new process has an empty bus and
the environment of the bus daemon. -/
def step (b : UpgradeBus) : Event → UpgradeBus
  | .call callers call release =>
    match b.world.proc with
    | .up u =>
      let called := u.methodCallCb b.release callers call release
      { world := { b.world with proc := .up called.service }, release := called.release,
        bus := .answer called.answer :: (called.signals.reverse.map .signal ++ b.bus) }
    | _ => b
  | .getProperty objectPath interfaceName propertyName =>
    match b.world.proc with
    | .up u => b.reply (u.getPropertyCb objectPath interfaceName propertyName)
    | _ => b
  | .setProperty propertyName =>
    match b.world.proc with
    | .up _ => b.reply (UpgradeFactorySnapshot.setPropertyCb propertyName)
    | _ => b
  | .other e _ =>
    match b.world.proc, e with
    | .off, .launch => ⟨b.world.step .launch, none, []⟩
    | .up u, e => ⟨b.world.step e, b.release, (u.signals b.world.store e).reverse.map .signal ++ b.bus⟩
    | _, e => ⟨b.world.step e, b.release, b.bus⟩

/-- A run. -/
def run (b : UpgradeBus) (es : List Event) : UpgradeBus := es.foldl step b

/-- The service is not running, and nothing is on the bus. -/
def rest (store : Store) (orphans : List SnapshotCmd) : UpgradeBus := ⟨⟨store, .off, orphans⟩, none, []⟩

end UpgradeBus

end Sfmf

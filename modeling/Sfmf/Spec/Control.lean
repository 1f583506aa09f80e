import Sfmf.Lib.Exec

/-!
# Control over D-Bus (`common/control.c`, `common/privileged.c`)

A method call is answered from the main loop, which runs only while
`sfmf_control_process` does. What the bus and `/proc` say about the caller is asked
for at each call, and may change from one to the next: it is the `Callers` of the
call. GLib and GIO are not modelled beyond the values that they return.
-/

namespace Sfmf

/-! ## Privileged callers -/

/-- What is known of the callers at some time. -/
structure Callers where
  /-- `GetConnectionUnixProcessID`, by the name of the sender -/
  pid : Option String → Option UInt32
  /-- the user and the group of `/proc/<pid>` -/
  owner : UInt32 → Option (Option String × Option String)

/-- `sfmf_dbus_is_privileged`. -/
def sfmfDbusIsPrivileged (callers : Callers) (sender : Option String) : Bool :=
  match callers.pid sender with
  | none => false
  | some pid =>
    match callers.owner pid with
    | none => false
    | some (effectiveUser, effectiveGroup) => effectiveUser = some "root" ∨ effectiveGroup = some "privileged"

/-! ## Method calls -/

/-- `SFMF_DBUS_PATH`. -/
def sfmfDbusPath : String := "/"

/-- `SFMF_DBUS_INTERFACE`. -/
def sfmfDbusInterface : String := "org.sailfishos.slipstream.unpack"

/-- The arguments of `sfmf_control_method_call_cb` that it looks at. -/
structure MethodCall where
  sender : Option String
  objectPath : Option String
  interfaceName : Option String
  methodName : Option String
  deriving DecidableEq, Repr

/-- The three values of a `Progress` signal and of an answer to `GetProgress`. -/
structure ProgressArgs where
  target : String
  progress : ℤ
  phase : String
  deriving DecidableEq, Repr

/-- An answer to a method call. -/
inductive Answer where
  | abort (result : Bool)
  | getProgress (args : ProgressArgs)
  | dbusError (name message : String)
  deriving DecidableEq, Repr

/-- The error of a call that is not valid. -/
def methodCallError : Answer := .dbusError (sfmfDbusInterface ++ ".MethodCallError") "Invalid method call"

/-- The `progress` of `struct SFMF_Control_Private`. -/
structure ControlProgress where
  target : Option String
  progress : ℤ
  phase : Option String
  deriving DecidableEq, Repr

/-- `g.progress.target ?: ""`, and so on. -/
def ControlProgress.args (p : ControlProgress) : ProgressArgs := ⟨p.target.getD "", p.progress, p.phase.getD ""⟩

/-- `struct SFMF_Control_Private`. The user data of the callbacks is not in it, and `abort` is `none` for a callback
that is not set. -/
structure Control (Data : Type) where
  connection : Bool
  objectRegistration : Bool
  callbacks : Option (Option (Data → Bool × Data))
  progress : ControlProgress

namespace Control

variable {Data : Type}

/-- `g` when `sfmf_control_init` returns: the name is acquired, and the object is registered. -/
def sfmfControlInit (callbacks : Option (Option (Data → Bool × Data))) : Control Data :=
  ⟨true, true, callbacks, ⟨none, 0, none⟩⟩

/-- Whether a call is one that the service serves. -/
def serves (callers : Callers) (call : MethodCall) : Bool :=
  call.objectPath = some sfmfDbusPath ∧ call.interfaceName = some sfmfDbusInterface ∧
    sfmfDbusIsPrivileged callers call.sender = true

/-- `sfmf_control_method_call_cb`: the answer, and the user data. -/
def methodCallCb (g : Control Data) (callers : Callers) (call : MethodCall) (userData : Data) : Answer × Data :=
  if serves callers call then
    if call.methodName = some "Abort" then
      match g.callbacks with
      | some (some abort) => (.abort (abort userData).1, (abort userData).2)
      | _ => (.abort false, userData)
    else if call.methodName = some "GetProgress" then (.getProgress g.progress.args, userData)
    else (methodCallError, userData)
  else (methodCallError, userData)

/-- `sfmf_control_set_progress`: the new `g`, and the signal, if there is a connection. A target is always replaced, and
a phase only by another one. -/
def setProgress (g : Control Data) (target : Option String) (progress : ℤ) (phase : Option String) :
    Control Data × Option ProgressArgs :=
  let g := { g with progress := ⟨target, progress, if phase.isSome then phase else g.progress.phase⟩ }
  (g, if g.connection then some g.progress.args else none)

/-- `sfmf_control_close`. -/
def close (_ : Control Data) : Control Data := ⟨false, false, none, ⟨none, 0, none⟩⟩

end Control

end Sfmf

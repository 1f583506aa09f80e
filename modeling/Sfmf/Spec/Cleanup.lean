import Sfmf.Lib.Signals
import Sfmf.Lib.Trace

/-!
# Cleanup at exit (`common/cleanup.c`)

`sfmf_cleanup_register` installs a handler for three signals and for the exit of the process;
`sfmf_cleanup_run` calls the registered function, from the handler or at exit. Every statement
is a step, and a signal or an exit may come in between any two. The build (`-std=gnu99`) has the
BSD semantics of `signal`, which are those of `Sfmf.Signals`.

Of the process, `CleanupMem` has the static variables of the file, the list of `atexit`, and a
record of the calls and of the signals that were raised.
-/

namespace Sfmf

open Signals

/-- The signals that are handled. -/
inductive CleanupSignal where
  | sigterm
  | sigint
  | sighup
  deriving DecidableEq, Repr

/-- A handler: `on_signal`, or one that was installed before. -/
inductive CleanupHandler where
  | onSignal
  | other (h : ℕ)
  deriving DecidableEq, Repr

abbrev SigAction := Action CleanupHandler

variable {Fn Data : Type}

/-- The static variables of `cleanup.c`. -/
structure CleanupMem (Fn Data : Type) where
  gCleanupFunc : Option Fn
  gCleanupFuncUserData : Option Data
  gSigActionTerm : SigAction
  gSigActionInt : SigAction
  gSigActionHup : SigAction
  /-- `exit` is to call `sfmf_cleanup_run` -/
  atexit : Bool
  /-- the calls of cleanup functions, with their arguments -/
  calls : List (Fn × Option Data)
  /-- what `on_signal` has raised, and the action in force then -/
  reraised : List (CleanupSignal × SigAction)

/-- The statements of `sfmf_cleanup_register`. Each of the three assignments
`g_sig_action_term = signal(sig, on_signal)` is a call and a store. -/
inductive RegisterPc where
  | assertFunc
  | assertData
  | setFunc
  | setData
  | install (sig : CleanupSignal)
  | assign (sig : CleanupSignal) (old : SigAction)
  | atexit
  deriving DecidableEq, Repr

/-- The statements of `sfmf_cleanup_run`, with its local variable `f`. -/
inductive RunPc (Fn : Type) where
  | test
  | load
  | clearFunc (f : Option Fn)
  | call (f : Option Fn)
  | clearData
  deriving DecidableEq, Repr

/-- The statements of `on_signal`, and its return. -/
inductive SignalPc where
  | run
  | restore
  | reraise
  | done
  deriving DecidableEq, Repr

/-- A call on the stack. -/
inductive CleanupFrame (Fn Data : Type) where
  /-- the program, after the registration -/
  | program
  | cleanupRegister (cleanupFunc : Fn) (userData : Option Data) (pc : RegisterPc)
  | cleanupRun (pc : RunPc Fn)
  | onSignal (sig : CleanupSignal) (pc : SignalPc)
  /-- a handler that was installed before -/
  | handler (sig : CleanupSignal) (h : ℕ)
  /-- the cleanup function -/
  | cleanupFunc
  /-- `exit` -/
  | exiting
  deriving DecidableEq, Repr

/-- How the handlers are called. -/
def cleanupHandlers : Handlers CleanupSignal CleanupHandler (CleanupFrame Fn Data) where
  enter h sig :=
    match h with
    | .onSignal => .onSignal sig .run
    | .other n => .handler sig n
  handles f :=
    match f with
    | .onSignal sig _ => some sig
    | .handler sig _ => some sig
    | _ => none

abbrev CleanupProcess (Fn Data : Type) :=
  Process CleanupSignal CleanupHandler (CleanupFrame Fn Data) (CleanupMem Fn Data)

/-- The action that `on_signal` restores. -/
def savedAction (m : CleanupMem Fn Data) : CleanupSignal → SigAction
  | .sigterm => m.gSigActionTerm
  | .sigint => m.gSigActionInt
  | .sighup => m.gSigActionHup

/-- The statement behind an assignment of `sfmf_cleanup_register`. -/
def RegisterPc.next : CleanupSignal → RegisterPc
  | .sigterm => .install .sigint
  | .sigint => .install .sighup
  | .sighup => .atexit

/-- One statement of `sfmf_cleanup_register(cleanup_func, user_data)`. -/
def registerStep (cleanupFunc : Fn) (userData : Option Data) (rest : List (CleanupFrame Fn Data))
    (p : CleanupProcess Fn Data) : RegisterPc → CleanupProcess Fn Data
  | .assertFunc =>
    if p.mem.gCleanupFunc.isNone then { p with stack := .cleanupRegister cleanupFunc userData .assertData :: rest }
    else { p with status := .crashed }
  | .assertData =>
    if p.mem.gCleanupFuncUserData.isNone then { p with stack := .cleanupRegister cleanupFunc userData .setFunc :: rest }
    else { p with status := .crashed }
  | .setFunc =>
    { p with
      mem := { p.mem with gCleanupFunc := some cleanupFunc }
      stack := .cleanupRegister cleanupFunc userData .setData :: rest }
  | .setData =>
    { p with
      mem := { p.mem with gCleanupFuncUserData := userData }
      stack := .cleanupRegister cleanupFunc userData (.install .sigterm) :: rest }
  | .install sig =>
    { p.setAction sig (.handler CleanupHandler.onSignal) with
      stack := .cleanupRegister cleanupFunc userData (.assign sig (p.action sig)) :: rest }
  | .assign sig old =>
    -- all three of them are to `g_sig_action_term`
    { p with
      mem := { p.mem with gSigActionTerm := old }
      stack := .cleanupRegister cleanupFunc userData (.next sig) :: rest }
  | .atexit => { p with mem := { p.mem with atexit := true }, stack := rest }

/-- One statement of `sfmf_cleanup_run`. -/
def runStep (rest : List (CleanupFrame Fn Data)) (p : CleanupProcess Fn Data) : RunPc Fn → CleanupProcess Fn Data
  | .test => if p.mem.gCleanupFunc.isSome then { p with stack := .cleanupRun .load :: rest } else { p with stack := rest }
  | .load => { p with stack := .cleanupRun (.clearFunc p.mem.gCleanupFunc) :: rest }
  | .clearFunc f => { p with mem := { p.mem with gCleanupFunc := none }, stack := .cleanupRun (.call f) :: rest }
  | .call (some f) =>
    { p with
      mem := { p.mem with calls := (f, p.mem.gCleanupFuncUserData) :: p.mem.calls }
      stack := .cleanupFunc :: .cleanupRun .clearData :: rest }
  | .call none => { p with status := .crashed }
  | .clearData => { p with mem := { p.mem with gCleanupFuncUserData := none }, stack := rest }

/-- One statement of `on_signal(sig)`. -/
def onSignalStep (sig : CleanupSignal) (rest : List (CleanupFrame Fn Data)) (p : CleanupProcess Fn Data) :
    SignalPc → CleanupProcess Fn Data
  | .run => { p with stack := .cleanupRun .test :: .onSignal sig .restore :: rest }
  | .restore => { p.setAction sig (savedAction p.mem sig) with stack := CleanupFrame.onSignal sig .reraise :: rest }
  | .reraise =>
    { p with
      mem := { p.mem with reraised := (sig, p.action sig) :: p.mem.reraised }
      stack := CleanupFrame.onSignal sig .done :: rest }.raise cleanupHandlers sig
  | .done => p.sigreturn cleanupHandlers sig rest

/-- One step of `exit`: what is on the list of `atexit` is taken off and called. -/
def exitStep (rest : List (CleanupFrame Fn Data)) (p : CleanupProcess Fn Data) : CleanupProcess Fn Data :=
  if p.mem.atexit then
    { p with mem := { p.mem with atexit := false }, stack := .cleanupRun .test :: .exiting :: rest }
  else { p with status := .exited }

/-- One step of the innermost call. What the program and the cleanup function do is not modelled. -/
def cleanupTick (p : CleanupProcess Fn Data) : CleanupProcess Fn Data :=
  match p.stack with
  | [] => p
  | .program :: _ => p
  | .cleanupRegister cleanupFunc userData pc :: rest => registerStep cleanupFunc userData rest p pc
  | .cleanupRun pc :: rest => runStep rest p pc
  | .onSignal sig pc :: rest => onSignalStep sig rest p pc
  | .handler sig _ :: rest => p.sigreturn cleanupHandlers sig rest
  | .cleanupFunc :: rest => { p with stack := rest }
  | .exiting :: rest => exitStep rest p

/-- What can happen: the next step, a signal, or that `exit` is called. -/
inductive CleanupEvent where
  | tick
  | signal (sig : CleanupSignal)
  | exit
  deriving DecidableEq, Repr

def cleanupStep (p : CleanupProcess Fn Data) (e : CleanupEvent) : CleanupProcess Fn Data :=
  match p.status with
  | .running =>
    match e with
    | .tick => cleanupTick p
    | .signal sig => p.raise cleanupHandlers sig
    | .exit => { p with stack := .exiting :: p.stack }
  | _ => p

/-- The program calls `sfmf_cleanup_register`, where the signals have these actions. -/
def cleanupStart (prior : CleanupSignal → SigAction) (cleanupFunc : Fn) (userData : Option Data) :
    CleanupProcess Fn Data where
  mem := ⟨none, none, .dfl, .dfl, .dfl, false, [], []⟩
  stack := [.cleanupRegister cleanupFunc userData .assertFunc, .program]
  action := prior
  pending _ := false
  status := .running

end Sfmf

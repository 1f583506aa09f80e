import Mathlib.Tactic

/-!
# Signals

A process with a stack of calls, which signals interrupt. While a handler runs, its signal is
blocked: if it comes again it is pending until the handler returns. `signal` leaves a handler
installed.

* `raise_cases`: what a signal does to a process.
* `sigreturn_kills`: a handler that raises its signal again under the default action does not
  return to the call below.
-/

namespace Sfmf.Signals

/-- What is done about a signal: `SIG_DFL`, `SIG_IGN` or a handler. -/
inductive Action (H : Type) where
  | dfl
  | ign
  | handler (h : H)
  deriving DecidableEq, Repr

inductive Status (Sig : Type) where
  | running
  | killed (sig : Sig)
  | exited
  | crashed
  deriving DecidableEq, Repr

/-- **A process**: its memory, its calls from the innermost on, and what the kernel knows of its signals. -/
structure Process (Sig H Frame Mem : Type) where
  mem : Mem
  stack : List Frame
  action : Sig → Action H
  pending : Sig → Bool
  status : Status Sig

/-- The calls that handlers make. -/
structure Handlers (Sig H Frame : Type) where
  /-- the call of a handler for a signal -/
  enter : H → Sig → Frame
  /-- the signal that is blocked until a call returns -/
  handles : Frame → Option Sig

variable {Sig H Frame Mem : Type} [DecidableEq Sig] (K : Handlers Sig H Frame)

namespace Process

/-- A signal is blocked while its handler is on the stack. -/
def blocked (p : Process Sig H Frame Mem) (sig : Sig) : Bool := p.stack.any fun f => K.handles f = some sig

/-- A signal that is not blocked takes effect. The default action ends the process. -/
def deliver (sig : Sig) (p : Process Sig H Frame Mem) : Process Sig H Frame Mem :=
  match p.action sig with
  | .dfl => { p with status := .killed sig }
  | .ign => p
  | .handler h => { p with stack := K.enter h sig :: p.stack }

/-- A signal is sent to the process, by itself or by another. -/
def raise (sig : Sig) (p : Process Sig H Frame Mem) : Process Sig H Frame Mem :=
  if p.blocked K sig then { p with pending := Function.update p.pending sig true } else p.deliver K sig

/-- `signal(sig, a)`. A signal that is ignored is no longer pending. -/
def setAction (sig : Sig) (a : Action H) (p : Process Sig H Frame Mem) : Process Sig H Frame Mem :=
  { p with
    action := Function.update p.action sig a
    pending :=
      match a with
      | .ign => Function.update p.pending sig false
      | _ => p.pending }

/-- A handler returns to the call below it: if its signal is pending, that takes effect first. -/
def sigreturn (sig : Sig) (rest : List Frame) (p : Process Sig H Frame Mem) : Process Sig H Frame Mem :=
  if p.pending sig then
    { p with stack := rest, pending := Function.update p.pending sig false }.deliver K sig
  else { p with stack := rest }

variable {K} {sig : Sig} {p : Process Sig H Frame Mem}

/-- **What a signal does**: it becomes pending, ends the process, is ignored, or is handled. -/
theorem raise_cases (sig : Sig) (p : Process Sig H Frame Mem) :
    (p.blocked K sig = true ∧ p.raise K sig = { p with pending := Function.update p.pending sig true }) ∨
    (p.action sig = .dfl ∧ p.raise K sig = { p with status := .killed sig }) ∨
    (p.action sig = .ign ∧ p.raise K sig = p) ∨
    ∃ h, p.action sig = .handler h ∧ p.raise K sig = { p with stack := K.enter h sig :: p.stack } := by
  unfold raise
  by_cases hb : p.blocked K sig = true
  · rw [if_pos hb]
    exact .inl ⟨hb, rfl⟩
  rw [if_neg hb]
  unfold deliver
  cases p.action sig with
  | dfl => exact .inr (.inl ⟨rfl, rfl⟩)
  | ign => exact .inr (.inr (.inl ⟨rfl, rfl⟩))
  | handler h => exact .inr (.inr (.inr ⟨h, rfl, rfl⟩))

/-- A signal that its own handler raises is pending. -/
theorem raise_handled {f : Frame} {rest : List Frame} (hstack : p.stack = f :: rest) (hf : K.handles f = some sig) :
    p.raise K sig = { p with pending := Function.update p.pending sig true } := by
  have hb : p.blocked K sig = true := by
    unfold blocked
    rw [hstack, List.any_cons, decide_eq_true hf, Bool.true_or]
  rw [raise, if_pos hb]

/-- `signal` with the default action leaves what is pending. -/
theorem setAction_dfl (sig : Sig) (p : Process Sig H Frame Mem) :
    p.setAction sig .dfl = { p with action := Function.update p.action sig .dfl } := rfl

/-- **A handler that has raised its signal again** under the default action does not return. -/
theorem sigreturn_kills {rest : List Frame} (hpending : p.pending sig = true) (hdfl : p.action sig = .dfl) :
    p.sigreturn K sig rest =
      { p with stack := rest, pending := Function.update p.pending sig false, status := .killed sig } := by
  rw [sigreturn, if_pos hpending, deliver]
  simp only [hdfl]

end Process

end Sfmf.Signals

import Sfmf.Spec.Cleanup

/-!
# Cleanup runs once, and signals keep their meaning

`g_sig_action_term` gets all three of the previous actions, and the other two variables none. So
`SIGINT` and `SIGHUP` are raised again under the default action, and `SIGTERM` under that of the
last assignment made.

* `CleanupInv`: what holds of a process that is sent safe signals only.
* `cleanupTick_ok`, `cleanupSignal_ok`, `cleanupExit_ok`: each step keeps it.
* `cleanup_right_iff`: cleanup is right in all runs exactly when every signal that is sent is
  safe.
-/

namespace Sfmf

open Signals

variable {Fn Data : Type} {prior : CleanupSignal → SigAction} {func : Fn} {userData : Option Data}
  {S : Set CleanupSignal} {p : CleanupProcess Fn Data}

/-- **Cleanup is right**: the registered function has been called at most once, with the registered argument, and
signals have been raised again under their actions before the registration. -/
structure CleanupRight (prior : CleanupSignal → SigAction) (func : Fn) (userData : Option Data)
    (p : CleanupProcess Fn Data) : Prop where
  once : p.mem.calls.length ≤ 1
  args : ∀ c ∈ p.mem.calls, c = (func, userData)
  reraised : ∀ r ∈ p.mem.reraised, r.2 = prior r.1
  /-- a handler that is about to return has raised its signal -/
  done : ∀ sig, CleanupFrame.onSignal sig .done ∈ p.stack → (sig, prior sig) ∈ p.mem.reraised

/-- A signal that keeps its meaning: its action was the default one. For `SIGTERM`, all three were. -/
def SafeSignal (prior : CleanupSignal → SigAction) : CleanupSignal → Prop
  | .sigterm => ∀ sig, prior sig = .dfl
  | sig => prior sig = .dfl

theorem SafeSignal.dfl {sig : CleanupSignal} (h : SafeSignal prior sig) : prior sig = .dfl := by
  cases sig with
  | sigterm => exact h .sigterm
  | sigint => exact h
  | sighup => exact h

/-! ## The invariant -/

/-- The function has not been called, or is not to be called again. -/
def Ready (func : Fn) (userData : Option Data) (p : CleanupProcess Fn Data) : Prop :=
  ∀ f, p.mem.gCleanupFunc = some f → f = func ∧ p.mem.gCleanupFuncUserData = userData ∧ p.mem.calls = []

/-- Something may call `sfmf_cleanup_run`. -/
def Armed (S : Set CleanupSignal) (p : CleanupProcess Fn Data) : Prop :=
  p.mem.atexit = true ∨ ∃ sig ∈ S, p.action sig = .handler .onSignal

/-- The signals that are still to get their handler. -/
def RegisterPc.ahead : RegisterPc → CleanupSignal → Bool
  | .install .sigint, sig => sig ≠ .sigterm
  | .install .sighup, sig => sig = .sighup
  | .assign .sigterm _, sig => sig ≠ .sigterm
  | .assign .sigint _, sig => sig = .sighup
  | .assign .sighup _, _ => false
  | .atexit, _ => false
  | _, _ => true

/-- What is stored at each statement of the registration. -/
def RegisterStored (func : Fn) (userData : Option Data) (m : CleanupMem Fn Data) : RegisterPc → Prop
  | .assertFunc | .assertData | .setFunc => m.gCleanupFunc = none ∧ m.gCleanupFuncUserData = none
  | .setData => m.gCleanupFunc = some func
  | _ => m.gCleanupFunc = some func ∧ m.gCleanupFuncUserData = userData

/-- A registration that was not interrupted. -/
structure Registering (prior : CleanupSignal → SigAction) (func : Fn) (userData : Option Data)
    (p : CleanupProcess Fn Data) (pc : RegisterPc) : Prop where
  ahead : ∀ sig, pc.ahead sig = true → p.action sig = prior sig
  old : ∀ sig old, pc = .assign sig old → old = prior sig
  atexit : p.mem.atexit = false
  calls : p.mem.calls = []
  stored : RegisterStored func userData p.mem pc

/-- What is known at each statement of `on_signal`. -/
def SignalOk (func : Fn) (userData : Option Data) (p : CleanupProcess Fn Data) (sig : CleanupSignal) : SignalPc → Prop
  | .run => Ready func userData p
  | .restore => True
  | .reraise => p.action sig = .dfl
  | .done => p.action sig = .dfl ∧ p.pending sig = true

/-- What is known at each statement of `sfmf_cleanup_run`. -/
def RunOk (func : Fn) (userData : Option Data) (p : CleanupProcess Fn Data) : RunPc Fn → Prop
  | .test => Ready func userData p
  | .load => p.mem.gCleanupFunc = some func ∧ p.mem.gCleanupFuncUserData = userData ∧ p.mem.calls = []
  | .clearFunc f => f = some func ∧ p.mem.gCleanupFuncUserData = userData ∧ p.mem.calls = []
  | .call f => f = some func ∧ p.mem.gCleanupFunc = none ∧ p.mem.gCleanupFuncUserData = userData ∧ p.mem.calls = []
  | .clearData => p.mem.gCleanupFunc = none

/-- What calls `sfmf_cleanup_run`: neither of them returns. -/
inductive CleanupCaller (S : Set CleanupSignal) : CleanupFrame Fn Data → Prop
  | onSignal {sig : CleanupSignal} : sig ∈ S → CleanupCaller S (.onSignal sig .restore)
  | exiting : CleanupCaller S .exiting

/-- **Where the process may be.** What is below a handler or below `exit` does not matter. -/
inductive TopOk (S : Set CleanupSignal) (prior : CleanupSignal → SigAction) (func : Fn) (userData : Option Data)
    (p : CleanupProcess Fn Data) : List (CleanupFrame Fn Data) → Prop
  | program : TopOk S prior func userData p [.program]
  | cleanupRegister {pc : RegisterPc} : Registering prior func userData p pc →
      TopOk S prior func userData p [.cleanupRegister func userData pc, .program]
  | onSignal {sig : CleanupSignal} {pc : SignalPc} {rest : List (CleanupFrame Fn Data)} : sig ∈ S →
      SignalOk func userData p sig pc → TopOk S prior func userData p (.onSignal sig pc :: rest)
  | cleanupRun {pc : RunPc Fn} {caller : CleanupFrame Fn Data} {rest : List (CleanupFrame Fn Data)} :
      CleanupCaller S caller → RunOk func userData p pc →
      TopOk S prior func userData p (.cleanupRun pc :: caller :: rest)
  | cleanupFunc {caller : CleanupFrame Fn Data} {rest : List (CleanupFrame Fn Data)} : CleanupCaller S caller →
      p.mem.gCleanupFunc = none → TopOk S prior func userData p (.cleanupFunc :: .cleanupRun .clearData :: caller :: rest)
  | exiting {rest : List (CleanupFrame Fn Data)} : TopOk S prior func userData p (.exiting :: rest)

/-- **The invariant** of a process that is sent signals of `S` only. -/
structure CleanupInv (S : Set CleanupSignal) (prior : CleanupSignal → SigAction) (func : Fn) (userData : Option Data)
    (p : CleanupProcess Fn Data) : Prop where
  right : CleanupRight prior func userData p
  saved : ∀ sig ∈ S, savedAction p.mem sig = .dfl
  action : ∀ sig ∈ S, p.action sig = .dfl ∨ p.action sig = .handler .onSignal
  ready : Armed S p → Ready func userData p
  top : TopOk S prior func userData p p.stack

theorem CleanupRight.congr {p' : CleanupProcess Fn Data} (h : CleanupRight prior func userData p)
    (hcalls : p'.mem.calls = p.mem.calls) (hreraised : p'.mem.reraised = p.mem.reraised)
    (hdone : ∀ sig, CleanupFrame.onSignal sig .done ∈ p'.stack → CleanupFrame.onSignal sig .done ∈ p.stack) :
    CleanupRight prior func userData p' where
  once := by rw [hcalls]; exact h.once
  args := by rw [hcalls]; exact h.args
  reraised := by rw [hreraised]; exact h.reraised
  done sig hsig := by rw [hreraised]; exact h.done sig (hdone sig hsig)

/-- What is known of a process is known when more signals are pending. -/
theorem TopOk.pending {stack : List (CleanupFrame Fn Data)} (h : TopOk S prior func userData p stack)
    (sig : CleanupSignal) :
    TopOk S prior func userData { p with pending := Function.update p.pending sig true } stack := by
  cases h with
  | program => exact .program
  | cleanupRegister hreg => exact .cleanupRegister ⟨hreg.ahead, hreg.old, hreg.atexit, hreg.calls, hreg.stored⟩
  | @onSignal sig' pc rest hsig hpc =>
    refine .onSignal hsig ?_
    cases pc with
    | done =>
      refine ⟨hpc.1, ?_⟩
      change Function.update p.pending sig true sig' = true
      by_cases heq : sig' = sig
      · rw [heq, Function.update_self]
      · rw [Function.update_of_ne heq]
        exact hpc.2
    | _ => exact hpc
  | @cleanupRun pc _ _ hcaller hpc =>
    refine .cleanupRun hcaller ?_
    cases pc <;> exact hpc
  | cleanupFunc hcaller hnone => exact .cleanupFunc hcaller hnone
  | exiting => exact .exiting

/-- The statement behind a call of `sfmf_cleanup_run`. -/
theorem CleanupCaller.topOk {caller : CleanupFrame Fn Data} {rest : List (CleanupFrame Fn Data)}
    (h : CleanupCaller S caller) : TopOk S prior func userData p (caller :: rest) := by
  cases h with
  | onSignal hsig => exact .onSignal hsig trivial
  | exiting => exact .exiting

/-- An action that is set to the default one or to the handler. -/
theorem CleanupInv.action_update (h : CleanupInv S prior func userData p) (sig : CleanupSignal)
    {a : SigAction} (ha : a = .dfl ∨ a = .handler .onSignal) :
    ∀ sig' ∈ S, Function.update p.action sig a sig' = .dfl ∨
      Function.update p.action sig a sig' = .handler .onSignal := by
  intro sig' hsig'
  by_cases heq : sig' = sig
  · rw [heq, Function.update_self]
    exact ha
  · rw [Function.update_of_ne heq]
    exact h.action sig' hsig'

/-! ## Steps -/

theorem cleanupStep_tick (h : p.status = .running) : cleanupStep p .tick = cleanupTick p := by
  simp only [cleanupStep, h]

theorem cleanupStep_signal (h : p.status = .running) (sig : CleanupSignal) :
    cleanupStep p (.signal sig) = p.raise cleanupHandlers sig := by
  simp only [cleanupStep, h]

theorem cleanupStep_exit (h : p.status = .running) :
    cleanupStep p .exit = { p with stack := .exiting :: p.stack } := by
  simp only [cleanupStep, h]

theorem cleanupStep_stopped (h : p.status ≠ .running) (e : CleanupEvent) : cleanupStep p e = p := by
  unfold cleanupStep
  split
  · rename_i hrun
    exact absurd hrun h
  · rfl

/-- **A signal** is handled, or ends the process. -/
theorem cleanupSignal_ok (h : CleanupInv S prior func userData p) {sig : CleanupSignal} (hsig : sig ∈ S) :
    CleanupRight prior func userData (p.raise cleanupHandlers sig) ∧
      ((p.raise cleanupHandlers sig).status = .running →
        CleanupInv S prior func userData (p.raise cleanupHandlers sig)) := by
  rcases Process.raise_cases (K := cleanupHandlers) sig p with ⟨_, heq⟩ | ⟨_, heq⟩ | ⟨hign, _⟩ | ⟨handler, haction, heq⟩
  · rw [heq]
    exact ⟨⟨h.right.once, h.right.args, h.right.reraised, h.right.done⟩, fun _ =>
      ⟨⟨h.right.once, h.right.args, h.right.reraised, h.right.done⟩, h.saved, h.action, h.ready, h.top.pending sig⟩⟩
  · rw [heq]
    exact ⟨⟨h.right.once, h.right.args, h.right.reraised, h.right.done⟩, fun hrun => by cases hrun⟩
  · rcases h.action sig hsig with hact | hact <;> rw [hign] at hact <;> cases hact
  · have hhandler : handler = .onSignal := by
      rcases h.action sig hsig with hact | hact <;> rw [haction] at hact
      · cases hact
      · exact Action.handler.inj hact
    subst hhandler
    have hright : CleanupRight prior func userData
        { p with stack := CleanupFrame.onSignal sig .run :: p.stack } :=
      h.right.congr rfl rfl fun sig' hmem => by simpa using hmem
    rw [heq]
    exact ⟨hright, fun _ => ⟨hright, h.saved, h.action, h.ready,
      .onSignal hsig (h.ready (.inr ⟨sig, hsig, haction⟩))⟩⟩

/-- **An exit** may come at any time. -/
theorem cleanupExit_ok (h : CleanupInv S prior func userData p) :
    CleanupInv S prior func userData { p with stack := .exiting :: p.stack } where
  right := h.right.congr rfl rfl fun sig hmem => by simpa using hmem
  saved := h.saved
  action := h.action
  ready := h.ready
  top := .exiting

section

variable (hS : ∀ sig ∈ S, SafeSignal prior sig)

include hS

/-- Nothing calls `sfmf_cleanup_run` before the argument is stored. -/
theorem Registering.ready {pc : RegisterPc} (h : Registering prior func userData p pc) (harmed : Armed S p) :
    Ready func userData p := by
  have hnot : (∀ sig, pc.ahead sig = true) → False := by
    intro hall
    rcases harmed with hatexit | ⟨sig, hsig, haction⟩
    · rw [h.atexit] at hatexit
      cases hatexit
    · rw [h.ahead sig (hall sig), (hS sig hsig).dfl] at haction
      cases haction
  have hstored := h.stored
  intro f hf
  cases pc with
  | assertFunc | assertData | setFunc | setData => exact (hnot fun _ => rfl).elim
  | install _ | assign _ _ | atexit =>
    obtain ⟨hfunc, hdata⟩ := hstored
    rw [hfunc, Option.some.injEq] at hf
    exact ⟨hf.symm, hdata, h.calls⟩

/-- The next statement of the registration. -/
theorem CleanupInv.registering (h : CleanupInv S prior func userData p) {p' : CleanupProcess Fn Data} {pc : RegisterPc}
    (hstack : p'.stack = [.cleanupRegister func userData pc, .program]) (hreraised : p'.mem.reraised = p.mem.reraised)
    (hcalls : p'.mem.calls = p.mem.calls) (hsaved : ∀ sig ∈ S, savedAction p'.mem sig = .dfl)
    (haction : ∀ sig ∈ S, p'.action sig = .dfl ∨ p'.action sig = .handler .onSignal)
    (hreg : Registering prior func userData p' pc) : CleanupInv S prior func userData p' where
  right := h.right.congr hcalls hreraised fun sig hsig => by simp [hstack] at hsig
  saved := hsaved
  action := haction
  ready := hreg.ready hS
  top := by rw [hstack]; exact .cleanupRegister hreg

/-- A statement before the first handler: no action has changed. -/
theorem CleanupInv.storing (h : CleanupInv S prior func userData p) {pc pc' : RegisterPc}
    (hreg : Registering prior func userData p pc) {p' : CleanupProcess Fn Data}
    (hstack : p'.stack = [.cleanupRegister func userData pc', .program]) (hreraised : p'.mem.reraised = p.mem.reraised)
    (hcalls : p'.mem.calls = p.mem.calls) (hatexit : p'.mem.atexit = p.mem.atexit) (haction : p'.action = p.action)
    (hsaved : ∀ sig, savedAction p'.mem sig = savedAction p.mem sig)
    (hstored : RegisterStored func userData p'.mem pc') (hall : ∀ sig, pc.ahead sig = true)
    (hpc : ∀ sig old, pc' ≠ .assign sig old) : CleanupInv S prior func userData p' := by
  refine h.registering hS hstack hreraised hcalls ?_ ?_ ⟨?_, ?_, ?_, ?_, hstored⟩
  · intro sig hsig
    rw [hsaved]
    exact h.saved sig hsig
  · rw [haction]
    exact h.action
  · intro sig _
    rw [haction]
    exact hreg.ahead sig (hall sig)
  · intro sig old heq
    exact absurd heq (hpc sig old)
  · rw [hatexit]
    exact hreg.atexit
  · rw [hcalls]
    exact hreg.calls

/-- A statement of the registration. -/
theorem registerStep_ok {pc : RegisterPc} (hreg : Registering prior func userData p pc)
    (h : CleanupInv S prior func userData p) :
    CleanupInv S prior func userData (registerStep func userData [.program] p pc) := by
  have hstored := hreg.stored
  cases pc with
  | assertFunc =>
    rw [registerStep, hstored.1, Option.isNone_none, if_pos rfl]
    exact h.storing hS hreg rfl rfl rfl rfl rfl (fun _ => rfl) hstored (fun _ => rfl) (by simp)
  | assertData =>
    rw [registerStep, hstored.2, Option.isNone_none, if_pos rfl]
    exact h.storing hS hreg rfl rfl rfl rfl rfl (fun _ => rfl) hstored (fun _ => rfl) (by simp)
  | setFunc => exact h.storing hS hreg rfl rfl rfl rfl rfl (fun _ => rfl) rfl (fun _ => rfl) (by simp)
  | setData => exact h.storing hS hreg rfl rfl rfl rfl rfl (fun _ => rfl) ⟨hstored, rfl⟩ (fun _ => rfl) (by simp)
  | install sig =>
    have hold : p.action sig = prior sig := hreg.ahead sig (by cases sig <;> rfl)
    refine h.registering hS rfl rfl rfl h.saved (h.action_update sig (.inr rfl))
      ⟨?_, ?_, hreg.atexit, hreg.calls, hstored⟩
    · intro sig' hahead
      change Function.update p.action sig _ sig' = _
      have hne : sig' ≠ sig := by
        rintro rfl
        cases sig' <;> cases hahead
      rw [Function.update_of_ne hne]
      exact hreg.ahead sig' (by cases sig <;> cases sig' <;> first | rfl | cases hahead)
    · intro sig' old hpc
      cases hpc
      exact hold
  | assign sig old =>
    refine h.registering hS rfl rfl rfl ?_ h.action ⟨?_, ?_, hreg.atexit, hreg.calls, ?_⟩
    · intro sig' hsig'
      cases sig' with
      | sigterm => exact (hreg.old sig old rfl).trans (hS .sigterm hsig' sig)
      | sigint => exact h.saved .sigint hsig'
      | sighup => exact h.saved .sighup hsig'
    · intro sig' hahead
      exact hreg.ahead sig' (by cases sig <;> exact hahead)
    · intro sig' old' hpc
      cases sig <;> cases hpc
    · cases sig <;> exact hstored
  | atexit =>
    have hready : Ready func userData p := fun f hf => by
      rw [hstored.1, Option.some.injEq] at hf
      exact ⟨hf.symm, hstored.2, hreg.calls⟩
    exact ⟨h.right.congr rfl rfl fun sig hmem => by simp [registerStep] at hmem, h.saved, h.action, fun _ => hready,
      .program⟩

/-- A statement of `on_signal`: the last of them ends the process. -/
theorem onSignalStep_ok {sig : CleanupSignal} {pc : SignalPc} {rest : List (CleanupFrame Fn Data)} (hsig : sig ∈ S)
    (hpc : SignalOk func userData p sig pc) (hstack : p.stack = .onSignal sig pc :: rest)
    (h : CleanupInv S prior func userData p) :
    CleanupRight prior func userData (onSignalStep sig rest p pc) ∧
      ((onSignalStep sig rest p pc).status = .running → CleanupInv S prior func userData (onSignalStep sig rest p pc)) := by
  have hrest : ∀ sig', CleanupFrame.onSignal sig' .done ∈ rest → CleanupFrame.onSignal sig' .done ∈ p.stack := by
    intro sig' hmem
    rw [hstack]
    exact List.mem_cons_of_mem _ hmem
  cases pc with
  | run =>
    have hright : CleanupRight prior func userData (onSignalStep sig rest p .run) :=
      h.right.congr rfl rfl fun sig' hmem => hrest sig' (by simpa [onSignalStep] using hmem)
    exact ⟨hright, fun _ => ⟨hright, h.saved, h.action, h.ready, .cleanupRun (.onSignal hsig) hpc⟩⟩
  | restore =>
    have heq : onSignalStep sig rest p .restore =
        { p with action := Function.update p.action sig .dfl, stack := .onSignal sig .reraise :: rest } := by
      rw [onSignalStep, h.saved sig hsig, Process.setAction_dfl]
    rw [heq]
    have hright : CleanupRight prior func userData
        { p with action := Function.update p.action sig .dfl, stack := .onSignal sig .reraise :: rest } :=
      h.right.congr rfl rfl fun sig' hmem => hrest sig' (by simpa using hmem)
    refine ⟨hright, fun _ => ⟨hright, h.saved, h.action_update sig (.inl rfl), ?_,
      .onSignal hsig (Function.update_self ..)⟩⟩
    -- what may still call `sfmf_cleanup_run` could do so before
    rintro (hatexit | ⟨sig', hsig', haction⟩)
    · exact h.ready (.inl hatexit)
    · change Function.update p.action sig _ sig' = _ at haction
      by_cases hself : sig' = sig
      · rw [hself, Function.update_self] at haction
        cases haction
      · rw [Function.update_of_ne hself] at haction
        exact h.ready (.inr ⟨sig', hsig', haction⟩)
  | reraise =>
    have hdfl : p.action sig = .dfl := hpc
    have hprior : prior sig = .dfl := (hS sig hsig).dfl
    rw [onSignalStep, Process.raise_handled (f := .onSignal sig .done) rfl rfl]
    have hright : CleanupRight prior func userData
        { p with
          mem := { p.mem with reraised := (sig, p.action sig) :: p.mem.reraised }
          stack := .onSignal sig .done :: rest
          pending := Function.update p.pending sig true } := by
      refine ⟨h.right.once, h.right.args, List.forall_mem_cons.2 ⟨hdfl.trans hprior.symm, h.right.reraised⟩, ?_⟩
      intro sig' hmem
      rcases List.mem_cons.1 hmem with heq | hmem
      · obtain ⟨rfl, _⟩ := CleanupFrame.onSignal.inj heq
        rw [hdfl, hprior]
        exact List.mem_cons_self
      · exact List.mem_cons_of_mem _ (h.right.done sig' (hrest sig' hmem))
    exact ⟨hright, fun _ => ⟨hright, h.saved, h.action, h.ready, .onSignal hsig ⟨hdfl, Function.update_self ..⟩⟩⟩
  | done =>
    rw [onSignalStep, Process.sigreturn_kills hpc.2 hpc.1]
    exact ⟨h.right.congr rfl rfl hrest, fun hrun => by cases hrun⟩

omit hS in
/-- A statement of `sfmf_cleanup_run`. -/
theorem runStep_ok {pc : RunPc Fn} {caller : CleanupFrame Fn Data} {rest : List (CleanupFrame Fn Data)}
    (hcaller : CleanupCaller S caller) (hpc : RunOk func userData p pc)
    (hstack : p.stack = .cleanupRun pc :: caller :: rest) (h : CleanupInv S prior func userData p) :
    CleanupInv S prior func userData (runStep (caller :: rest) p pc) := by
  have hrest : ∀ sig, CleanupFrame.onSignal sig .done ∈ caller :: rest → CleanupFrame.onSignal sig .done ∈ p.stack := by
    intro sig hmem
    rw [hstack]
    exact List.mem_cons_of_mem _ hmem
  cases pc with
  | test =>
    unfold runStep
    cases hfunc : p.mem.gCleanupFunc with
    | none => exact ⟨h.right.congr rfl rfl hrest, h.saved, h.action, h.ready, hcaller.topOk⟩
    | some f =>
      obtain ⟨rfl, hdata, hcalls⟩ := hpc f hfunc
      exact ⟨h.right.congr rfl rfl fun sig hmem => hrest sig (by simpa using hmem), h.saved, h.action, h.ready,
        .cleanupRun hcaller ⟨hfunc, hdata, hcalls⟩⟩
  | load =>
    exact ⟨h.right.congr rfl rfl fun sig hmem => hrest sig (by simpa [runStep] using hmem), h.saved, h.action, h.ready,
      .cleanupRun hcaller hpc⟩
  | clearFunc f =>
    obtain ⟨hf, hdata, hcalls⟩ := hpc
    refine ⟨h.right.congr rfl rfl fun sig hmem => hrest sig (by simpa [runStep] using hmem), h.saved, h.action, ?_,
      .cleanupRun hcaller ⟨hf, rfl, hdata, hcalls⟩⟩
    exact fun _ _ h => by cases h
  | call f =>
    obtain ⟨rfl, hnone, hdata, hcalls⟩ := hpc
    -- the one call, and nothing is left to be called
    have hmem : (runStep (caller :: rest) p (.call (some func))).mem =
        { p.mem with calls := [(func, userData)] } := by
      simp only [runStep, hdata, hcalls]
    refine ⟨⟨?_, ?_, ?_, ?_⟩, ?_, h.action, ?_, .cleanupFunc hcaller hnone⟩
    · rw [hmem]
      exact le_rfl
    · rw [hmem]
      simp
    · rw [hmem]
      exact h.right.reraised
    · intro sig hsig
      rw [hmem]
      exact h.right.done sig (hrest sig (by simpa [runStep] using hsig))
    · intro sig hsig
      rw [hmem]
      exact h.saved sig hsig
    · intro _ f hf
      rw [hmem] at hf
      exact absurd (hnone.symm.trans hf) (by simp)
  | clearData =>
    have hnone : p.mem.gCleanupFunc = none := hpc
    refine ⟨h.right.congr rfl rfl hrest, h.saved, h.action, ?_, hcaller.topOk⟩
    intro _ f hf
    exact absurd (hnone.symm.trans hf) (by simp)

omit hS in
/-- A step of `exit`. -/
theorem exitStep_ok {rest : List (CleanupFrame Fn Data)} (hstack : p.stack = .exiting :: rest)
    (h : CleanupInv S prior func userData p) : CleanupRight prior func userData (exitStep rest p) ∧
      ((exitStep rest p).status = .running → CleanupInv S prior func userData (exitStep rest p)) := by
  unfold exitStep
  by_cases hatexit : p.mem.atexit = true
  · rw [if_pos hatexit]
    have hready := h.ready (.inl hatexit)
    have hinv : CleanupInv S prior func userData { p with
        mem := { p.mem with atexit := false }, stack := .cleanupRun .test :: .exiting :: rest } := by
      refine ⟨h.right.congr rfl rfl fun sig hmem => ?_, h.saved, h.action, fun _ => hready, .cleanupRun .exiting hready⟩
      rw [hstack]
      simpa using hmem
    exact ⟨hinv.right, fun _ => hinv⟩
  · rw [if_neg hatexit]
    exact ⟨h.right.congr rfl rfl fun _ hmem => hmem, fun hrun => by cases hrun⟩

/-- **A step** of the innermost call. -/
theorem cleanupTick_ok (h : CleanupInv S prior func userData p) : CleanupRight prior func userData (cleanupTick p) ∧
    ((cleanupTick p).status = .running → CleanupInv S prior func userData (cleanupTick p)) := by
  have both : ∀ {p' : CleanupProcess Fn Data}, CleanupInv S prior func userData p' →
      CleanupRight prior func userData p' ∧ (p'.status = .running → CleanupInv S prior func userData p') :=
    fun hinv => ⟨hinv.right, fun _ => hinv⟩
  have htop := h.top
  generalize hstack : p.stack = stack at htop
  unfold cleanupTick
  rw [hstack]
  cases htop with
  | program => exact both h
  | cleanupRegister hreg => exact both (registerStep_ok hS hreg h)
  | onSignal hsig hpc => exact onSignalStep_ok hS hsig hpc hstack h
  | cleanupRun hcaller hpc => exact both (runStep_ok hcaller hpc hstack h)
  | @cleanupFunc caller rest hcaller hnone =>
    refine both ⟨h.right.congr rfl rfl fun sig hmem => ?_, h.saved, h.action, h.ready, .cleanupRun hcaller hnone⟩
    rw [hstack]
    exact List.mem_cons_of_mem _ hmem
  | exiting => exact exitStep_ok hstack h

/-! ## Runs -/

/-- **An event**: the process is right after it, and if it still runs it has the invariant. -/
theorem cleanupStep_ok {e : CleanupEvent} (he : ∀ sig, e = .signal sig → sig ∈ S)
    (h : CleanupRight prior func userData p ∧ (p.status = .running → CleanupInv S prior func userData p)) :
    CleanupRight prior func userData (cleanupStep p e) ∧
      ((cleanupStep p e).status = .running → CleanupInv S prior func userData (cleanupStep p e)) := by
  by_cases hrun : p.status = .running
  · have hinv := h.2 hrun
    cases e with
    | tick =>
      rw [cleanupStep_tick hrun]
      exact cleanupTick_ok hS hinv
    | signal sig =>
      rw [cleanupStep_signal hrun]
      exact cleanupSignal_ok hinv (he sig rfl)
    | exit =>
      rw [cleanupStep_exit hrun]
      exact ⟨(cleanupExit_ok hinv).right, fun _ => cleanupExit_ok hinv⟩
  · rw [cleanupStep_stopped hrun]
    exact h

theorem cleanupStart_ok (func : Fn) (userData : Option Data) :
    CleanupInv S prior func userData (cleanupStart prior func userData) := by
  have hreg : Registering prior func userData (cleanupStart prior func userData) .assertFunc :=
    ⟨fun _ _ => rfl, fun _ _ h => (by cases h), rfl, rfl, rfl, rfl⟩
  refine ⟨⟨Nat.zero_le 1, by simp [cleanupStart], by simp [cleanupStart], by simp [cleanupStart]⟩, fun sig _ => ?_,
    fun sig hsig => .inl (hS sig hsig).dfl, hreg.ready hS, .cleanupRegister hreg⟩
  cases sig <;> rfl

/-- **In every run** that is sent safe signals only, cleanup is right at every point. -/
theorem cleanup_right {es : List CleanupEvent} (hes : ∀ sig, .signal sig ∈ es → sig ∈ S) (func : Fn)
    (userData : Option Data) {n : ℕ} (hn : n ≤ es.length) :
    CleanupRight prior func userData (stateAt cleanupStep (cleanupStart prior func userData) es n) := by
  have hstart := cleanupStart_ok hS func userData
  refine (stateAt_inv (fun p => CleanupRight prior func userData p ∧
    (p.status = .running → CleanupInv S prior func userData p)) ⟨hstart.right, fun _ => hstart⟩ ?_ n hn).1
  intro k hk hinv
  exact cleanupStep_ok hS (fun sig he => hes sig (he ▸ List.getElem_mem hk)) hinv

end

/-! ## Unsafe signals -/

/-- The first steps of the program, a signal, and its handler up to the return. -/
def signalAfter (k : ℕ) (sig : CleanupSignal) : List CleanupEvent :=
  List.replicate k .tick ++ .signal sig :: List.replicate 9 .tick

/-- What `signalAfter` raises: `SIGINT` and `SIGHUP` under the default action, and `SIGTERM` under that of the last
assignment to `g_sig_action_term`. -/
theorem signalAfter_reraised (prior : CleanupSignal → SigAction) (func : Fn) (userData : Option Data) :
    let raised := fun k sig =>
      (stateAt cleanupStep (cleanupStart prior func userData) (signalAfter k sig) (signalAfter k sig).length).mem.reraised
    raised 11 .sigint = [(.sigint, .dfl)] ∧ raised 11 .sighup = [(.sighup, .dfl)] ∧
      raised 5 .sigterm = [(.sigterm, .dfl)] ∧ raised 8 .sigterm = [(.sigterm, prior .sigint)] ∧
      raised 11 .sigterm = [(.sigterm, prior .sighup)] :=
  by
  simp [stateAt, signalAfter, cleanupStart, cleanupStep, cleanupTick, registerStep, onSignalStep, runStep, RegisterPc.next,
    Process.setAction, Process.raise, Process.blocked, Process.deliver, cleanupHandlers, savedAction]

/-- **Cleanup runs once and signals keep their meaning** in all runs exactly when every signal that is sent is
safe. -/
theorem cleanup_right_iff (prior : CleanupSignal → SigAction) (func : Fn) (userData : Option Data)
    (S : Set CleanupSignal) :
    (∀ es : List CleanupEvent, (∀ sig, .signal sig ∈ es → sig ∈ S) → ∀ n ≤ es.length,
      CleanupRight prior func userData (stateAt cleanupStep (cleanupStart prior func userData) es n)) ↔
    ∀ sig ∈ S, SafeSignal prior sig := by
  refine ⟨fun hall sig hsig => ?_, fun hS es hes n hn => cleanup_right hS hes func userData hn⟩
  have hraised : ∀ (k : ℕ) (a : SigAction), (stateAt cleanupStep (cleanupStart prior func userData) (signalAfter k sig)
      (signalAfter k sig).length).mem.reraised = [(sig, a)] → a = prior sig := by
    intro k a hr
    have hes : ∀ sig', .signal sig' ∈ signalAfter k sig → sig' ∈ S := by
      intro sig' hmem
      simp only [signalAfter, List.mem_append, List.mem_cons, List.mem_replicate, CleanupEvent.signal.injEq,
        reduceCtorEq, and_false, or_false, false_or] at hmem
      rw [hmem]
      exact hsig
    exact (hall _ hes _ le_rfl).reraised (sig, a) (by rw [hr]; exact List.mem_singleton_self _)
  obtain ⟨hint, hhup, hfirst, hsecond, hthird⟩ := signalAfter_reraised prior func userData
  cases sig with
  | sigint => exact (hraised 11 _ hint).symm
  | sighup => exact (hraised 11 _ hhup).symm
  | sigterm =>
    -- a run for each of the three values of `g_sig_action_term`
    have hdfl : prior .sigterm = .dfl := (hraised 5 _ hfirst).symm
    intro sig
    cases sig with
    | sigterm => exact hdfl
    | sigint => exact (hraised 8 _ hsecond).trans hdfl
    | sighup => exact (hraised 11 _ hthird).trans hdfl

/-- The actions below `nohup`. -/
def nohupActions : CleanupSignal → SigAction
  | .sighup => .ign
  | _ => .dfl

/-- A `SIGTERM` inside `sfmf_cleanup_run`, which `exit` has called. -/
def terminatedExit : List CleanupEvent :=
  List.replicate 11 .tick ++ [.exit, .tick, .tick, .tick, .signal .sigterm] ++ List.replicate 12 .tick

/-- **Below `nohup`, cleanup is not right**: `SIGTERM` is raised again to be ignored, and where it comes between the
test and the store of `sfmf_cleanup_run`, the function is called twice, the second time without its argument. -/
theorem cleanup_nohup :
    (¬ ∀ es n, n ≤ es.length → CleanupRight nohupActions 1 (some 7)
      (stateAt cleanupStep (cleanupStart nohupActions 1 (some 7)) es n)) ∧
    (stateAt cleanupStep (cleanupStart nohupActions 1 (some 7)) (signalAfter 11 .sigterm) 21).mem.reraised =
      [(.sigterm, .ign)] ∧
    (stateAt cleanupStep (cleanupStart nohupActions 1 (some 7)) terminatedExit 28).mem.calls =
      [(1, none), (1, some 7)] := by
  refine ⟨fun hall => ?_, rfl, rfl⟩
  have honce := (hall terminatedExit 28 le_rfl).once
  exact absurd honce (by decide)

end Sfmf

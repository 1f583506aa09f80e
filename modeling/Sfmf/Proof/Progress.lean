import Sfmf.Proof.Session

/-!
# What a run of `sfmf-unpack` says on the bus

* `BusInv`, `progress_protocol`: an answer to `GetProgress` is the last `Progress` signal,
  the steps add up to their total, and a run that succeeds ends at `100` and `"FINISHED"`.
* `only_abort_matters`: no call but an `Abort` of a privileged caller makes a difference to
  anything but the answers.
-/

namespace Sfmf

variable {E : Env} {G : Gauge} {Loc : Type} [DecidableEq Loc] {N : Naming Loc} {opts : UnpackOptions}
  {target : String}

/-! ## Answers and signals -/

/-- The signals, the latest first. -/
def signalsOf : List BusEvent → List ProgressArgs
  | [] => []
  | .signal args :: bus => args :: signalsOf bus
  | .answer _ _ :: bus => signalsOf bus

@[simp] theorem signalsOf_append (signals : List ProgressArgs) (bus : List BusEvent) :
    signalsOf (signals.map .signal ++ bus) = signals ++ signalsOf bus := by
  induction signals with
  | nil => rfl
  | cons args signals ih => rw [List.map_cons, List.cons_append, signalsOf, ih, List.cons_append]

/-- Every answer to `GetProgress` has what the signal before it had. -/
def AnswersLast (bus : List BusEvent) : Prop :=
  ∀ later call args earlier, bus = later ++ .answer call (.getProgress args) :: earlier → args = lastSignal earlier

theorem AnswersLast.cons {bus : List BusEvent} (h : AnswersLast bus) {e : BusEvent}
    (he : ∀ call args, e = .answer call (.getProgress args) → args = lastSignal bus) : AnswersLast (e :: bus) := by
  intro later call args earlier heq
  cases later with
  | nil =>
    obtain ⟨rfl, rfl⟩ := List.cons.inj heq
    exact he call args rfl
  | cons e' later =>
    obtain ⟨-, rfl⟩ := List.cons.inj heq
    exact h later call args earlier rfl

namespace UnpackProcess

/-- **What the bus has to do with `g`.** -/
structure BusInv (p : UnpackProcess G Loc) : Prop where
  connected : p.g.objectRegistration = true → p.g.connection = true
  last : p.g.objectRegistration = true → lastSignal p.bus = p.g.progress.args
  answers : AnswersLast p.bus

omit [DecidableEq Loc] in
theorem BusInv.start (opts : UnpackOptions) (cache : Dir) (fs : FS Loc) :
    (UnpackProcess.start G opts cache fs).BusInv where
  connected _ := rfl
  last _ := rfl
  answers := by
    intro later call args earlier heq
    exact absurd heq (by simp [UnpackProcess.start])

omit [DecidableEq Loc] in
theorem BusInv.setProgress {p : UnpackProcess G Loc} (h : p.BusInv) (k : ℤ) (m : Option String) :
    (p.setProgress target k m).BusInv := by
  by_cases hconn : p.g.connection = true
  · have hbus : (p.setProgress target k m).bus =
        .signal (p.setProgress target k m).g.progress.args :: p.bus := by
      simp [UnpackProcess.setProgress, Control.setProgress, hconn]
    refine ⟨h.connected, fun _ => ?_, ?_⟩
    · rw [hbus, lastSignal]
    · rw [hbus]
      exact h.answers.cons fun _ _ heq => by cases heq
  · have hreg : ¬ p.g.objectRegistration = true := fun hreg => hconn (h.connected hreg)
    have hbus : (p.setProgress target k m).bus = p.bus := by
      simp [UnpackProcess.setProgress, Control.setProgress, hconn]
    exact ⟨h.connected, fun hr => absurd hr hreg, by rw [hbus]; exact h.answers⟩

theorem BusInv.next {p : UnpackProcess G Loc} (h : p.BusInv) : (p.next E N opts target).BusInv :=
  next_inv BusInv (fun _ k m _ h => ⟨(h.setProgress k m).connected, (h.setProgress k m).last, (h.setProgress k m).answers⟩)
    (fun _ _ _ _ _ h => ⟨h.connected, h.last, h.answers⟩) h

omit [DecidableEq Loc] in
theorem BusInv.call {p : UnpackProcess G Loc} (h : p.BusInv) (hreg : p.g.objectRegistration = true)
    (hg : p.g.callbacks = some (some controlAbortCb)) (callers : Callers) (c : MethodCall) :
    (p.call callers c).BusInv where
  connected := h.connected
  last := h.last
  answers := by
    refine h.answers.cons fun call args heq => ?_
    have hanswer := (BusEvent.answer.inj heq).2
    rw [methodCallCb_abort hg] at hanswer
    rw [h.last hreg]
    split_ifs at hanswer with hfor hget
    · exact (Answer.getProgress.inj hanswer).symm
    · cases hanswer

/-! ## The steps -/

end UnpackProcess

/-- Whether a statement is a new step. -/
def UnpackStmt.isStep : UnpackStmt → Bool
  | .nextStep _ => true
  | _ => false

namespace UnpackProcess

/-- The steps that were taken and those to come are the total. -/
def StepsAdd (p : UnpackProcess G Loc) : Prop := p.current + 1 + p.todo.countP UnpackStmt.isStep = p.total

omit [DecidableEq Loc] in
theorem StepsAdd.start (opts : UnpackOptions) (cache : Dir) (fs : FS Loc) :
    (UnpackProcess.start G opts cache fs).StepsAdd := by
  unfold StepsAdd UnpackProcess.start unpackStmts
  cases opts.offlineMode <;> cases opts.downloadOnly <;> rfl

omit [DecidableEq Loc] in
@[simp] theorem drawProgress_current (p : UnpackProcess G Loc) (i : ℤ) (m : String) :
    (p.drawProgress target i m).current = p.current :=
  p.drawProgress_frame (fun p => p.current) (fun _ _ _ => rfl) i m

omit [DecidableEq Loc] in
@[simp] theorem perform_current (p : UnpackProcess G Loc) (r : Exec (UnpackVars Loc)) :
    (p.perform r).current = p.current := by
  cases r <;> rfl

theorem StepsAdd.next {p : UnpackProcess G Loc} (h : p.StepsAdd) : (p.next E N opts target).StepsAdd := by
  unfold StepsAdd at h ⊢
  rw [next_total, UnpackProcess.next]
  cases htodo : p.todo with
  | nil => simpa [htodo] using h
  | cons stmt todo =>
    rw [htodo] at h
    cases stmt with
    | nextStep message =>
      rw [List.countP_cons_of_pos rfl] at h
      simp only [exec, drawProgress_current, drawProgress_todo]
      push_cast at h
      omega
    | check f i =>
      rw [List.countP_cons_of_neg (by simp [UnpackStmt.isStep])] at h
      simp only [exec]
      split_ifs <;> simpa [UnpackStmt.isStep] using h
    | entry f i => simpa [exec, UnpackStmt.isStep] using h
    | finished => simpa [exec, setProgress, UnpackStmt.isStep] using h
    | manifest => simpa [exec, UnpackStmt.isStep] using h
    | index => simpa [exec, UnpackStmt.isStep] using h
    | metadata => simpa [exec, UnpackStmt.isStep] using h
    | tables => simpa [exec, UnpackStmt.isStep] using h
    | dirstackFree => simpa [exec, UnpackStmt.isStep] using h

/-! ## The end -/

/-- The last of a list with one more in front. -/
theorem getLast_cons {a b : UnpackStmt} {l : List UnpackStmt} :
    (a :: l).getLast? = some b ↔ l.getLast? = some b ∨ l = [] ∧ a = b := by
  cases l with
  | nil => simp
  | cons c l => simp [List.getLast?_cons_cons]

/-- The signal at the end. -/
def finishedArgs (target : String) : ProgressArgs := ⟨target, 100, "FINISHED"⟩

/-- The last statement is the signal of the end, and behind it that is the last signal. -/
def Finishes (target : String) (p : UnpackProcess G Loc) : Prop :=
  p.todo.getLast? = some .finished ∨ p.todo = [] ∧ p.g.progress.args = finishedArgs target

omit [DecidableEq Loc] in
theorem Finishes.start (target : String) (opts : UnpackOptions) (cache : Dir) (fs : FS Loc) :
    Finishes target (UnpackProcess.start G opts cache fs) :=
  .inl (by
    have hstmts : (UnpackProcess.start G opts cache fs).todo = unpackStmts opts := rfl
    rw [hstmts, unpackStmts, List.getLast?_append]
    rfl)

theorem Finishes.next {p : UnpackProcess G Loc} (h : Finishes target p) : Finishes target (p.next E N opts target) := by
  obtain hlast | ⟨hnil, hargs⟩ := h
  · obtain htail | ⟨f, i, todo, htodo, -, hnext⟩ | ⟨f, i, todo, htodo, hnext⟩ := p.next_todo E N opts target
    · cases htodo : p.todo with
      | nil =>
        rw [htodo] at hlast
        cases hlast
      | cons stmt todo =>
        rw [htodo, getLast_cons] at hlast
        obtain hlast | ⟨rfl, rfl⟩ := hlast
        · exact .inl (by rw [htail, htodo, List.tail_cons, hlast])
        · refine .inr ⟨by rw [htail, htodo, List.tail_cons], ?_⟩
          rw [UnpackProcess.next, htodo]
          rfl
    · rw [htodo, getLast_cons] at hlast
      exact .inl (by rw [hnext, getLast_cons]; exact .inl (hlast.resolve_right (by simp)))
    · rw [htodo, getLast_cons] at hlast
      exact .inl (by rw [hnext, getLast_cons]; exact .inl (hlast.resolve_right (by simp)))
  · refine .inr ⟨?_, ?_⟩
    · rw [UnpackProcess.next, hnil]
    · rw [UnpackProcess.next, hnil]
      exact hargs

/-- **What the signals and answers of a run keep.** -/
structure ProtocolInv (target : String) (p : UnpackProcess G Loc) : Prop where
  bus : p.BusInv
  steps : p.StepsAdd
  finishes : p.g.objectRegistration = true → Finishes target p
  callbacks : p.g.objectRegistration = true → p.g.callbacks = some (some controlAbortCb)
  done : p.status = .success → p.todo = []
  registered : p.exits = false → p.g.objectRegistration = true

omit [DecidableEq Loc] in
theorem ProtocolInv.start (target : String) (opts : UnpackOptions) (cache : Dir) (fs : FS Loc) :
    ProtocolInv target (UnpackProcess.start G opts cache fs) where
  bus := .start opts cache fs
  steps := .start opts cache fs
  finishes _ := .start target opts cache fs
  callbacks _ := rfl
  done h := by cases h
  registered _ := rfl

theorem next_done {p : UnpackProcess G Loc} (hp : p.status = .running)
    (h : (p.next E N opts target).status = .success) : (p.next E N opts target).todo = [] := by
  cases next_cases E N opts target hp with
  | succeeds htodo => rw [UnpackProcess.next, htodo]
  | goes hstatus => rw [hstatus] at h; cases h
  | fails why hstatus => rw [hstatus] at h; cases h
  | aborts hstatus => rw [hstatus] at h; cases h

theorem ProtocolInv.step {p : UnpackProcess G Loc} (h : ProtocolInv target p) (e : Event) :
    ProtocolInv target (p.step E N opts target e) := by
  cases e with
  | next =>
    rw [UnpackProcess.step]
    split_ifs with hp
    · have hreg : p.g.objectRegistration = true := h.registered (by simp [exits, hp])
      exact ⟨h.bus.next, h.steps.next, fun _ => (h.finishes hreg).next, by simpa using h.callbacks, next_done hp,
        fun _ => by simpa using hreg⟩
    · exact h
  | call callers c =>
    rw [UnpackProcess.step]
    split_ifs with hp
    · exact ⟨h.bus.call hp.1 (h.callbacks hp.1) callers c, h.steps, h.finishes, h.callbacks, h.done, h.registered⟩
    · exact h
  | close =>
    rw [UnpackProcess.step]
    split_ifs with hp
    · refine ⟨⟨?_, ?_, h.bus.answers⟩, h.steps, ?_, ?_, h.done, ?_⟩
      · intro hreg
        cases hreg
      · intro hreg
        cases hreg
      · intro hreg
        cases hreg
      · intro hreg
        cases hreg
      · intro hexits
        have hsame : p.exits = false := hexits
        rw [hp] at hsame
        cases hsame
    · exact h

theorem ProtocolInv.run {p : UnpackProcess G Loc} (h : ProtocolInv target p) (es : List Event) :
    ProtocolInv target (p.run E N opts target es) := by
  induction es generalizing p with
  | nil => exact h
  | cons e es ih => exact ih (h.step e)

/-- **The progress protocol.** In every run, whenever the calls come: an answer to `GetProgress` is what the last `Progress`
signal before it said; no more steps are signalled than announced; and while the service is up, a run that has
succeeded has taken all of them, and says so. -/
theorem progress_protocol (E : Env) (G : Gauge) (N : Naming Loc) (opts : UnpackOptions) (target : String) (cache : Dir)
    (fs : FS Loc) (es : List Event) :
    let p := (start G opts cache fs).run E N opts target es
    AnswersLast p.bus ∧ p.current + 1 ≤ p.total ∧
      (p.status = .success → p.current + 1 = p.total ∧
        (p.g.objectRegistration = true → lastSignal p.bus = finishedArgs target)) := by
  intro p
  have hinv : ProtocolInv target p := (ProtocolInv.start target opts cache fs).run es
  have hsteps := hinv.steps
  unfold StepsAdd at hsteps
  refine ⟨hinv.bus.answers, by omega, fun hsuccess => ⟨?_, fun hreg => ?_⟩⟩
  · rw [hinv.done hsuccess] at hsteps
    simpa using hsteps
  · rw [hinv.bus.last hreg]
    obtain hlast | ⟨-, hargs⟩ := hinv.finishes hreg
    · rw [hinv.done hsuccess] at hlast
      cases hlast
    · exact hargs

/-! ## Calls that make no difference -/

/-- A part of `main` that adds signals to the bus, and does not depend on what is on it. -/
def AddsSignals (act : UnpackProcess G Loc → UnpackProcess G Loc) : Prop :=
  ∀ p bus, ∃ signals : List ProgressArgs, (act p).bus = signals.map .signal ++ p.bus ∧
    act { p with bus := bus } = { act p with bus := signals.map .signal ++ bus }

omit [DecidableEq Loc] in
theorem addsSignals_setProgress (G : Gauge) (Loc : Type) (target : String) (k : ℤ) (m : Option String) :
    AddsSignals fun p : UnpackProcess G Loc => p.setProgress target k m := fun p bus =>
  ⟨(p.g.setProgress (some target) k m).2.toList, by
    simp only [setProgress]
    cases (p.g.setProgress (some target) k m).2 <;> exact ⟨rfl, rfl⟩⟩

omit [DecidableEq Loc] in
theorem addsSignals_drawProgress (i : ℤ) (m : String) :
    AddsSignals fun p : UnpackProcess G Loc => p.drawProgress target i m := by
  intro p bus
  by_cases hskip : 0 ≤ i ∧
      G.close (G.progress p.current p.total i p.vars.header.entriesLength.toNat) p.lastProgress = true
  · refine ⟨[], ?_, ?_⟩
    · simp [drawProgress, hskip]
    · simp [drawProgress, hskip]
  · obtain ⟨signals, hbus, hact⟩ := addsSignals_setProgress G Loc target
      (G.percent (G.progress p.current p.total i p.vars.header.entriesLength.toNat))
      (if i = -1 then some m else none) p bus
    refine ⟨signals, ?_, ?_⟩
    · simp only [drawProgress, if_neg hskip]
      exact hbus
    · simp only [drawProgress, if_neg hskip]
      simp only at hact
      rw [hact]

omit [DecidableEq Loc] in
theorem addsSignals_perform (r : UnpackVars Loc → Exec (UnpackVars Loc)) :
    AddsSignals fun p : UnpackProcess G Loc => p.perform (r p.vars) := fun p bus =>
  ⟨[], by
    simp only [perform]
    cases r p.vars <;> exact ⟨rfl, rfl⟩⟩

theorem addsSignals_next (E : Env) (N : Naming Loc) (opts : UnpackOptions) (target : String) :
    AddsSignals fun p : UnpackProcess G Loc => p.next E N opts target := by
  intro p bus
  simp only [UnpackProcess.next]
  cases htodo : p.todo with
  | nil => exact ⟨[], rfl, rfl⟩
  | cons stmt todo =>
    simp only
    cases stmt with
    | nextStep message =>
      exact addsSignals_drawProgress (-1) message { p with todo := todo, current := p.current + 1 } bus
    | finished => exact addsSignals_setProgress G Loc target 100 _ { p with todo := todo } bus
    | manifest => exact addsSignals_perform (unpackManifest E opts) { p with todo := todo } bus
    | index => exact addsSignals_perform (unpackIndex E opts) { p with todo := todo } bus
    | metadata => exact addsSignals_perform unpackMetadata { p with todo := todo } bus
    | tables => exact addsSignals_perform unpackTables { p with todo := todo } bus
    | dirstackFree => exact addsSignals_perform (unpackDirstackFree N) { p with todo := todo } bus
    | entry f i => exact addsSignals_perform (f.run E N opts i) { p with todo := .check f (i + 1) :: todo } bus
    | check f i =>
      simp only [exec]
      by_cases hi : i < p.vars.header.entriesLength.toNat
      · by_cases habort : p.abort = true
        · exact ⟨[], by simp [hi, habort], by simp [hi, habort]⟩
        · simp only [if_pos hi, if_neg habort]
          exact addsSignals_drawProgress i "" { p with todo := .entry f i :: todo } bus
      · simp only [if_neg hi]
        exact addsSignals_drawProgress (-2) "DONE" { p with todo := todo } bus

/-- Two processes that differ only in their answers. -/
structure SameButAnswers (p q : UnpackProcess G Loc) : Prop where
  eq : q = { p with bus := q.bus }
  signals : signalsOf p.bus = signalsOf q.bus

/-- An event makes no more difference than there is. -/
theorem SameButAnswers.step {p q : UnpackProcess G Loc} (h : SameButAnswers p q) (e : Event) :
    SameButAnswers (p.step E N opts target e) (q.step E N opts target e) := by
  obtain ⟨heq, hsignals⟩ := h
  generalize hbus : q.bus = bus at heq hsignals
  subst heq
  clear hbus
  cases e with
  | next =>
    obtain ⟨signals, hp, hq⟩ := addsSignals_next E N opts target p bus
    simp only at hp hq
    rw [UnpackProcess.step, UnpackProcess.step]
    split_ifs with hrunning
    · rw [hq]
      exact ⟨rfl, by rw [hp, signalsOf_append, signalsOf_append, hsignals]⟩
    · exact ⟨rfl, hsignals⟩
  | call callers c =>
    rw [UnpackProcess.step, UnpackProcess.step]
    have halive : ({ p with bus := bus } : UnpackProcess G Loc).alive = p.alive := rfl
    simp only [halive]
    split_ifs
    · exact ⟨rfl, hsignals⟩
    · exact ⟨rfl, hsignals⟩
  | close =>
    rw [UnpackProcess.step, UnpackProcess.step]
    have hexits : ({ p with bus := bus } : UnpackProcess G Loc).exits = p.exits := rfl
    rw [hexits]
    split_ifs
    · exact ⟨rfl, hsignals⟩
    · exact ⟨rfl, hsignals⟩

/-- Whether an event is more than a call that asks for nothing, or that is refused. -/
def Event.matters : Event → Bool
  | .call callers c => abortsFor callers c
  | _ => true

/-- A call that does not matter makes no difference. -/
theorem SameButAnswers.ignore {p q : UnpackProcess G Loc} (hinv : ProtocolInv target p) (h : SameButAnswers p q) {e : Event}
    (he : e.matters = false) : SameButAnswers (p.step E N opts target e) q := by
  cases e with
  | next => cases he
  | close => cases he
  | call callers c =>
    rw [UnpackProcess.step]
    split_ifs with hp
    · have hfor : abortsFor callers c = false := he
      have habort : (p.call callers c).abort = p.abort := by
        rw [call_abort (hinv.callbacks hp.1), hfor, Bool.or_false]
      refine ⟨?_, h.signals⟩
      have hcall : p.call callers c = { p with bus := (p.call callers c).bus } := by
        conv_rhs => rw [← habort]
        rfl
      rw [hcall]
      exact h.eq
    · exact h

/-- **Only an `Abort` of a privileged caller matters.** Without all other calls, a run is the same but for the answers: what
is unpacked, the status, the signals. -/
theorem only_abort_matters (E : Env) (G : Gauge) (N : Naming Loc) (opts : UnpackOptions) (target : String) (cache : Dir)
    (fs : FS Loc) (es : List Event) :
    SameButAnswers ((start G opts cache fs).run E N opts target es)
      ((start G opts cache fs).run E N opts target (es.filter Event.matters)) := by
  suffices h : ∀ p q : UnpackProcess G Loc, ProtocolInv target p → SameButAnswers p q →
      SameButAnswers (p.run E N opts target es) (q.run E N opts target (es.filter Event.matters)) from
    h _ _ (.start target opts cache fs) ⟨rfl, rfl⟩
  induction es with
  | nil => exact fun p q _ h => h
  | cons e es ih =>
    intro p q hinv h
    cases he : e.matters with
    | true =>
      rw [List.filter_cons_of_pos he]
      exact ih _ _ (hinv.step e) (h.step e)
    | false =>
      rw [List.filter_cons_of_neg (by simp [he])]
      exact ih _ _ (hinv.step e) (h.ignore hinv he)

end UnpackProcess

end Sfmf

import Sfmf.Spec.Session

/-!
# A run of `sfmf-unpack` under control

* `Accounted`, `RunInv.run`: at every point of every run, what is left of `main` gives the
  result of `unpackMain`, unless an `Abort` was answered.
-/

namespace Sfmf

variable {G : Gauge} {Loc : Type} {target : String}

/-! ## What a signal leaves as it is -/

namespace UnpackProcess

section Frame

variable (p : UnpackProcess G Loc)

@[simp] theorem setProgress_todo (k : ℤ) (m : Option String) : (p.setProgress target k m).todo = p.todo := rfl

@[simp] theorem setProgress_vars (k : ℤ) (m : Option String) : (p.setProgress target k m).vars = p.vars := rfl

@[simp] theorem setProgress_status (k : ℤ) (m : Option String) : (p.setProgress target k m).status = p.status := rfl

@[simp] theorem setProgress_abort (k : ℤ) (m : Option String) : (p.setProgress target k m).abort = p.abort := rfl

/-- `draw_progress` does nothing, or sets the progress. -/
theorem drawProgress_cases (target : String) (i : ℤ) (m : String) : p.drawProgress target i m = p ∨ ∃ k last,
    p.drawProgress target i m =
      { p.setProgress target k (if i = -1 then some m else none) with lastProgress := last } := by
  rw [drawProgress]
  by_cases hskip : 0 ≤ i ∧
      G.close (G.progress p.current p.total i p.vars.header.entriesLength.toNat) p.lastProgress = true
  · exact .inl (if_pos hskip)
  · exact .inr ⟨_, _, if_neg hskip⟩

/-- What `draw_progress` does not change. -/
theorem drawProgress_frame {α : Type} (f : UnpackProcess G Loc → α)
    (hf : ∀ k m last, f { p.setProgress target k m with lastProgress := last } = f p) (i : ℤ) (m : String) :
    f (p.drawProgress target i m) = f p := by
  obtain h | ⟨k, last, h⟩ := p.drawProgress_cases target i m
  · rw [h]
  · rw [h, hf]

@[simp] theorem drawProgress_todo (i : ℤ) (m : String) : (p.drawProgress target i m).todo = p.todo :=
  p.drawProgress_frame (fun p => p.todo) (fun _ _ _ => rfl) i m

@[simp] theorem drawProgress_vars (i : ℤ) (m : String) : (p.drawProgress target i m).vars = p.vars :=
  p.drawProgress_frame (fun p => p.vars) (fun _ _ _ => rfl) i m

@[simp] theorem drawProgress_status (i : ℤ) (m : String) : (p.drawProgress target i m).status = p.status :=
  p.drawProgress_frame (fun p => p.status) (fun _ _ _ => rfl) i m

@[simp] theorem drawProgress_abort (i : ℤ) (m : String) : (p.drawProgress target i m).abort = p.abort :=
  p.drawProgress_frame (fun p => p.abort) (fun _ _ _ => rfl) i m

@[simp] theorem perform_todo (r : Exec (UnpackVars Loc)) : (p.perform r).todo = p.todo := by
  cases r <;> rfl

end Frame

end UnpackProcess

/-! ## What is left of `main` -/

variable {E : Env} [DecidableEq Loc] {N : Naming Loc} {opts : UnpackOptions}

/-- The rest of a loop of `foreach_unpack_entry`, without its checks. -/
def unpackLoop (E : Env) (N : Naming Loc) (opts : UnpackOptions) (f : UnpackPhase) (i : ℕ) (v : UnpackVars Loc) :
    Exec (UnpackVars Loc) :=
  ((List.range v.header.entriesLength.toNat).drop i).foldlM (fun v k => f.run E N opts k v) v

/-- What a statement does to the variables, if nobody aborts. -/
def UnpackStmt.denote (E : Env) (N : Naming Loc) (opts : UnpackOptions) (v : UnpackVars Loc) :
    UnpackStmt → Exec (UnpackVars Loc)
  | .nextStep _ | .finished => .ok v
  | .manifest => unpackManifest E opts v
  | .index => unpackIndex E opts v
  | .metadata => unpackMetadata v
  | .tables => unpackTables v
  | .check f i => unpackLoop E N opts f i v
  | .entry f i => f.run E N opts i v >>= unpackLoop E N opts f (i + 1)
  | .dirstackFree => unpackDirstackFree N v

namespace UnpackProcess

/-- **What is left of `main`**, if nobody aborts. -/
def remaining (E : Env) (N : Naming Loc) (opts : UnpackOptions) (p : UnpackProcess G Loc) : Exec (UnpackVars Loc) :=
  p.todo.foldlM (UnpackStmt.denote E N opts) p.vars

end UnpackProcess

theorem run_header {f : UnpackPhase} {i : ℕ} {v v' : UnpackVars Loc} (h : f.run E N opts i v = .ok v') :
    v'.header = v.header := by
  unfold UnpackPhase.run at h
  cases f
  all_goals
    simp only at h
    split at h
    · cases h
    · simp only [bind_ok] at h
      obtain ⟨_, -, h⟩ := h
      cases h
      rfl

theorem unpackLoop_done {f : UnpackPhase} {i : ℕ} {v : UnpackVars Loc} (h : ¬ i < v.header.entriesLength.toNat) :
    unpackLoop E N opts f i v = .ok v := by
  rw [unpackLoop, List.drop_eq_nil_of_le (by simpa using h)]
  rfl

/-- The rest of a loop is the next entry and the rest. -/
theorem unpackLoop_step {f : UnpackPhase} {i : ℕ} {v : UnpackVars Loc} (h : i < v.header.entriesLength.toNat) :
    unpackLoop E N opts f i v = f.run E N opts i v >>= unpackLoop E N opts f (i + 1) := by
  have hdrop : (List.range v.header.entriesLength.toNat).drop i =
      i :: (List.range v.header.entriesLength.toNat).drop (i + 1) := by
    rw [List.drop_eq_getElem_cons (by simpa using h), List.getElem_range]
  rw [unpackLoop, hdrop, List.foldlM_cons]
  cases hrun : f.run E N opts i v with
  | error s => rfl
  | ok v' =>
    rw [ok_bind, ok_bind, unpackLoop, run_header hrun]

namespace UnpackProcess

/-! ## One statement -/

/-- What the next statement does, to a process that is running. -/
inductive Next (E : Env) (N : Naming Loc) (opts : UnpackOptions) (p p' : UnpackProcess G Loc) : Prop
  | goes (hstatus : p'.status = .running) (hresult : p'.remaining E N opts = p.remaining E N opts)
  | succeeds (htodo : p.todo = []) (hstatus : p'.status = .success) (hresult : p.remaining E N opts = .ok p'.vars)
  | fails (why : Stop) (hstatus : p'.status = .stopped why) (hresult : p.remaining E N opts = .error why)
  | aborts (hstatus : p'.status = .stopped aborted) (habort : p.abort = true)

theorem remaining_cons (E : Env) (N : Naming Loc) (opts : UnpackOptions) {p : UnpackProcess G Loc} {stmt : UnpackStmt}
    {todo : List UnpackStmt} (h : p.todo = stmt :: todo) : p.remaining E N opts =
      stmt.denote E N opts p.vars >>= fun v => todo.foldlM (UnpackStmt.denote E N opts) v := by
  rw [remaining, h, List.foldlM_cons]

/-- A statement that can end the process, with what is left behind it. -/
theorem Next.perform {p : UnpackProcess G Loc} (hp : p.status = .running) {todo : List UnpackStmt}
    {r : Exec (UnpackVars Loc)}
    (h : p.remaining E N opts = r >>= fun v => todo.foldlM (UnpackStmt.denote E N opts) v) :
    Next E N opts p ({ p with todo := todo }.perform r) := by
  cases r with
  | ok v => exact .goes hp h.symm
  | error why => exact .fails why rfl h

/-- **What the next statement does.** -/
theorem next_cases (E : Env) (N : Naming Loc) (opts : UnpackOptions) (target : String)
    {p : UnpackProcess G Loc} (hp : p.status = .running) : Next E N opts p (p.next E N opts target) := by
  rw [next]
  cases htodo : p.todo with
  | nil =>
    refine .succeeds htodo rfl ?_
    rw [remaining, htodo]
    rfl
  | cons stmt todo =>
    have hcons := remaining_cons E N opts htodo
    cases stmt with
    | nextStep message =>
      refine .goes (by simpa [exec] using hp) ?_
      rw [hcons, remaining]
      simp [exec, UnpackStmt.denote]
    | finished =>
      refine .goes hp ?_
      rw [hcons]
      rfl
    | manifest => exact .perform hp hcons
    | index => exact .perform hp hcons
    | metadata => exact .perform hp hcons
    | tables => exact .perform hp hcons
    | dirstackFree => exact .perform hp hcons
    | entry f i =>
      refine .perform hp ?_
      rw [hcons, UnpackStmt.denote, bind_assoc]
      rfl
    | check f i =>
      simp only [exec]
      split_ifs with hi habort
      · exact .aborts rfl habort
      · refine .goes (by simpa using hp) ?_
        rw [hcons, UnpackStmt.denote, unpackLoop_step hi, remaining]
        simp [UnpackStmt.denote]
      · refine .goes (by simpa using hp) ?_
        rw [hcons, UnpackStmt.denote, unpackLoop_done hi, remaining]
        simp

/-- **What the statements keep**: what every signal keeps, and does not depend on what only statements change. -/
theorem next_inv (P : UnpackProcess G Loc → Prop)
    (hset : ∀ (p : UnpackProcess G Loc) k m last, P p → P { p.setProgress target k m with lastProgress := last })
    (hstmt : ∀ (p : UnpackProcess G Loc) todo vars status current, P p →
      P { p with todo := todo, vars := vars, status := status, current := current })
    {p : UnpackProcess G Loc} (hp : P p) : P (p.next E N opts target) := by
  have hdraw : ∀ (q : UnpackProcess G Loc) i m, P q → P (q.drawProgress target i m) := by
    intro q i m hq
    obtain h | ⟨k, last, h⟩ := q.drawProgress_cases target i m
    · rwa [h]
    · rw [h]
      exact hset q _ _ _ hq
  have htodo : ∀ todo, P { p with todo := todo } := fun todo => hstmt p todo p.vars p.status p.current hp
  have hperform : ∀ (q : UnpackProcess G Loc) r, P q → P (q.perform r) := by
    intro q r hq
    cases r with
    | ok v => exact hstmt q q.todo v q.status q.current hq
    | error why => exact hstmt q q.todo q.vars (.stopped why) q.current hq
  rw [next]
  cases p.todo with
  | nil => exact hstmt p [] p.vars .success p.current hp
  | cons stmt todo =>
    simp only
    cases stmt with
    | nextStep message =>
      simp only [exec]
      exact hdraw _ _ _ (hstmt p todo p.vars p.status (p.current + 1) hp)
    | finished => exact hset { p with todo := todo } 100 _ p.lastProgress (htodo todo)
    | manifest => exact hperform _ _ (htodo todo)
    | index => exact hperform _ _ (htodo todo)
    | metadata => exact hperform _ _ (htodo todo)
    | tables => exact hperform _ _ (htodo todo)
    | dirstackFree => exact hperform _ _ (htodo todo)
    | entry f i => exact hperform _ _ (htodo _)
    | check f i =>
      simp only [exec]
      split_ifs
      · exact hstmt p todo p.vars (.stopped aborted) p.current hp
      · exact hdraw _ _ _ (htodo _)
      · exact hdraw _ _ _ (htodo _)

/-- What the statements do not change. -/
theorem next_frame {α : Type} (f : UnpackProcess G Loc → α)
    (hset : ∀ (p : UnpackProcess G Loc) k m last, f { p.setProgress target k m with lastProgress := last } = f p)
    (hstmt : ∀ (p : UnpackProcess G Loc) todo vars status current,
      f { p with todo := todo, vars := vars, status := status, current := current } = f p)
    (p : UnpackProcess G Loc) : f (p.next E N opts target) = f p :=
  next_inv (fun q => f q = f p) (fun q k m last hq => (hset q k m last).trans hq)
    (fun q todo vars status current hq => (hstmt q todo vars status current).trans hq) rfl

@[simp] theorem next_abort (p : UnpackProcess G Loc) : (p.next E N opts target).abort = p.abort :=
  next_frame (fun p => p.abort) (fun _ _ _ _ => rfl) (fun _ _ _ _ _ => rfl) p

@[simp] theorem next_callbacks (p : UnpackProcess G Loc) : (p.next E N opts target).g.callbacks = p.g.callbacks :=
  next_frame (fun p => p.g.callbacks) (fun _ _ _ _ => rfl) (fun _ _ _ _ _ => rfl) p

@[simp] theorem next_objectRegistration (p : UnpackProcess G Loc) :
    (p.next E N opts target).g.objectRegistration = p.g.objectRegistration :=
  next_frame (fun p => p.g.objectRegistration) (fun _ _ _ _ => rfl) (fun _ _ _ _ _ => rfl) p

@[simp] theorem next_connection (p : UnpackProcess G Loc) : (p.next E N opts target).g.connection = p.g.connection :=
  next_frame (fun p => p.g.connection) (fun _ _ _ _ => rfl) (fun _ _ _ _ _ => rfl) p

@[simp] theorem next_total (p : UnpackProcess G Loc) : (p.next E N opts target).total = p.total :=
  next_frame (fun p => p.total) (fun _ _ _ _ => rfl) (fun _ _ _ _ _ => rfl) p

/-! ## Method calls -/

end UnpackProcess

/-- Whether a call makes the process abort. -/
def abortsFor (callers : Callers) (call : MethodCall) : Bool :=
  Control.serves callers call && call.methodName = some "Abort"

theorem methodCallCb_abort {g : Control Bool} (hg : g.callbacks = some (some controlAbortCb)) (callers : Callers)
    (call : MethodCall) (abort : Bool) :
    g.methodCallCb callers call abort =
      if abortsFor callers call then (.abort true, true)
      else if Control.serves callers call ∧ call.methodName = some "GetProgress" then
        (.getProgress g.progress.args, abort)
      else (methodCallError, abort) := by
  rw [Control.methodCallCb, abortsFor]
  by_cases hserves : Control.serves callers call = true
  · by_cases habort : call.methodName = some "Abort"
    · simp [hserves, habort, hg, controlAbortCb]
    · by_cases hget : call.methodName = some "GetProgress" <;> simp [hserves, habort, hget]
  · simp [hserves]

namespace UnpackProcess

/-! ## All runs -/

/-- **A process and the result of `main`**: what is left of `main` gives it. -/
def Accounted (E : Env) (N : Naming Loc) (opts : UnpackOptions) (result : Exec (UnpackVars Loc))
    (p : UnpackProcess G Loc) : Prop :=
  match p.status with
  | .running => p.remaining E N opts = result
  | .success => result = .ok p.vars
  | .stopped why => result = .error why ∨ why = aborted ∧ p.abort = true

theorem Accounted.next {result : Exec (UnpackVars Loc)} {p : UnpackProcess G Loc} (h : p.Accounted E N opts result)
    (hp : p.status = .running) : (p.next E N opts target).Accounted E N opts result := by
  unfold Accounted at h
  rw [hp] at h
  cases next_cases E N opts target hp with
  | goes hstatus hresult => simp only [Accounted, hstatus, hresult, h]
  | succeeds _ hstatus hresult => simp only [Accounted, hstatus, ← h, hresult]
  | fails why hstatus hresult => simp only [Accounted, hstatus, ← h, hresult, true_or]
  | aborts hstatus habort => simp only [Accounted, hstatus, next_abort, habort, and_self, or_true]

omit [DecidableEq Loc] in
/-- A call does not take an abort back. -/
theorem call_abort {p : UnpackProcess G Loc} (h : p.g.callbacks = some (some controlAbortCb)) (callers : Callers)
    (c : MethodCall) : (p.call callers c).abort = (p.abort || abortsFor callers c) := by
  rw [call, methodCallCb_abort h]
  split_ifs with hfor <;> simp [hfor]

end UnpackProcess

/-- The answers, the latest first. -/
def answers : List BusEvent → List (MethodCall × Answer)
  | [] => []
  | .signal _ :: bus => answers bus
  | .answer call a :: bus => (call, a) :: answers bus

/-- The latest signal; a run starts with no target, no progress and no phase. -/
def lastSignal : List BusEvent → ProgressArgs
  | [] => ⟨"", 0, ""⟩
  | .signal args :: _ => args
  | .answer _ _ :: bus => lastSignal bus

namespace UnpackProcess

@[simp] theorem next_answers (p : UnpackProcess G Loc) : answers (p.next E N opts target).bus = answers p.bus := by
  refine next_frame (fun p => answers p.bus) (fun p k m last => ?_) (fun _ _ _ _ _ => rfl) p
  simp only [setProgress, Control.setProgress]
  split_ifs <;> rfl

/-- Whether a call to abort was answered. -/
def AbortAnswered (p : UnpackProcess G Loc) : Prop := ∃ call, (call, Answer.abort true) ∈ answers p.bus

/-- **The invariant of a run.** -/
structure RunInv (E : Env) (N : Naming Loc) (opts : UnpackOptions) (result : Exec (UnpackVars Loc))
    (p : UnpackProcess G Loc) : Prop where
  accounted : p.Accounted E N opts result
  callbacks : p.g.objectRegistration = true → p.g.callbacks = some (some controlAbortCb)
  abort : p.abort = true ↔ p.AbortAnswered

theorem RunInv.start (E : Env) (N : Naming Loc) (opts : UnpackOptions) (cache : Dir) (fs : FS Loc) :
    (start G opts cache fs).RunInv E N opts ((start G opts cache fs).remaining E N opts) where
  accounted := rfl
  callbacks _ := rfl
  abort := by simp [UnpackProcess.start, AbortAnswered, answers]

theorem RunInv.next {result : Exec (UnpackVars Loc)} {p : UnpackProcess G Loc} (h : p.RunInv E N opts result)
    (hp : p.status = .running) : (p.next E N opts target).RunInv E N opts result where
  accounted := h.accounted.next hp
  callbacks := by simpa using h.callbacks
  abort := by simpa [AbortAnswered] using h.abort

theorem RunInv.call {result : Exec (UnpackVars Loc)} {p : UnpackProcess G Loc} (h : p.RunInv E N opts result)
    (hp : p.g.objectRegistration = true) (callers : Callers) (c : MethodCall) :
    (p.call callers c).RunInv E N opts result := by
  have hcall := methodCallCb_abort (h.callbacks hp) callers c p.abort
  have habort := call_abort (h.callbacks hp) callers c
  have hanswers : (p.call callers c).AbortAnswered ↔ p.AbortAnswered ∨ abortsFor callers c = true := by
    have hbus : answers (p.call callers c).bus = (c, (p.g.methodCallCb callers c p.abort).1) :: answers p.bus := rfl
    rw [AbortAnswered, hbus, hcall]
    split_ifs with hfor hget
    · simp [hfor]
    · simp [hfor, AbortAnswered]
    · simp [hfor, AbortAnswered, methodCallError]
  refine ⟨?_, h.callbacks, by rw [habort, hanswers, Bool.or_eq_true, h.abort]⟩
  have hacc := h.accounted
  have hstatus : (p.call callers c).status = p.status := rfl
  have hvars : (p.call callers c).vars = p.vars := rfl
  have hremaining : (p.call callers c).remaining E N opts = p.remaining E N opts := rfl
  unfold Accounted at hacc ⊢
  rw [hstatus, hvars, hremaining, habort]
  cases hp : p.status with
  | running => simpa only [hp] using hacc
  | success => simpa only [hp] using hacc
  | stopped why =>
    rw [hp] at hacc
    exact hacc.imp_right fun ⟨hwhy, ht⟩ => ⟨hwhy, by rw [ht, Bool.true_or]⟩

/-- **Every event keeps the invariant.** -/
theorem RunInv.step {result : Exec (UnpackVars Loc)} {p : UnpackProcess G Loc} (h : p.RunInv E N opts result)
    (e : Event) : (p.step E N opts target e).RunInv E N opts result := by
  cases e with
  | next =>
    rw [UnpackProcess.step]
    split_ifs with hp
    · exact h.next hp
    · exact h
  | call callers c =>
    rw [UnpackProcess.step]
    split_ifs with hp
    · exact h.call hp.1 callers c
    · exact h
  | close =>
    rw [UnpackProcess.step]
    split_ifs
    · refine ⟨h.accounted, fun hreg => ?_, h.abort⟩
      cases hreg
    · exact h

/-- The process behind a list of events. -/
def run (E : Env) (N : Naming Loc) (opts : UnpackOptions) (target : String) (p : UnpackProcess G Loc)
    (es : List Event) : UnpackProcess G Loc :=
  es.foldl (fun p e => p.step E N opts target e) p

theorem RunInv.run {result : Exec (UnpackVars Loc)} {p : UnpackProcess G Loc} (h : p.RunInv E N opts result)
    (es : List Event) : (p.run E N opts target es).RunInv E N opts result := by
  induction es generalizing p with
  | nil => exact h
  | cons e es ih => exact ih (h.step e)

end UnpackProcess

/-! ## The end of a run -/

/-- How many statements a statement can still come to. A table has less than `2 ^ 32` entries. -/
def UnpackStmt.cost : UnpackStmt → ℕ
  | .check _ i => 2 * (2 ^ 32 - i) + 1
  | .entry _ i => 2 * (2 ^ 32 - i)
  | _ => 1

theorem UnpackStmt.cost_pos (stmt : UnpackStmt) (h : ∀ f i, stmt = .entry f i → i < 2 ^ 32) : 0 < stmt.cost := by
  cases stmt with
  | entry f i =>
    have := h f i rfl
    simp only [UnpackStmt.cost]
    omega
  | _ => simp [UnpackStmt.cost]

namespace UnpackProcess

/-- The next statement is done, or a loop goes on. -/
theorem next_todo (E : Env) (N : Naming Loc) (opts : UnpackOptions) (target : String)
    (p : UnpackProcess G Loc) : (p.next E N opts target).todo = p.todo.tail ∨
    (∃ f i todo, p.todo = .check f i :: todo ∧ i < p.vars.header.entriesLength.toNat ∧
      (p.next E N opts target).todo = .entry f i :: todo) ∨
    ∃ f i todo, p.todo = .entry f i :: todo ∧ (p.next E N opts target).todo = .check f (i + 1) :: todo := by
  rw [next]
  cases htodo : p.todo with
  | nil => exact .inl rfl
  | cons stmt todo =>
    cases stmt with
    | check f i =>
      simp only [exec]
      split_ifs with hi
      · exact .inl rfl
      · exact .inr (.inl ⟨f, i, todo, rfl, hi, by simp⟩)
      · exact .inl (by simp)
    | entry f i => exact .inr (.inr ⟨f, i, todo, rfl, by simp [exec]⟩)
    | nextStep message => exact .inl (by simp [exec])
    | finished => exact .inl rfl
    | manifest => exact .inl (by simp [exec])
    | index => exact .inl (by simp [exec])
    | metadata => exact .inl (by simp [exec])
    | tables => exact .inl (by simp [exec])
    | dirstackFree => exact .inl (by simp [exec])

/-- A bound on the statements that are left, with the end of `main`. -/
def budget (p : UnpackProcess G Loc) : ℕ := (p.todo.map UnpackStmt.cost).sum + 1

/-- The entries of the list are in the table. -/
def EntriesFit (p : UnpackProcess G Loc) : Prop := ∀ f i, UnpackStmt.entry f i ∈ p.todo → i < 2 ^ 32

theorem EntriesFit.next {p : UnpackProcess G Loc} (h : p.EntriesFit) : (p.next E N opts target).EntriesFit := by
  have hlt := p.vars.header.entriesLength.toNat_lt
  intro g k hk
  obtain htail | ⟨f, i, todo, htodo, hi, hnext⟩ | ⟨f, i, todo, htodo, hnext⟩ := p.next_todo E N opts target
  · rw [htail] at hk
    exact h g k (List.mem_of_mem_tail hk)
  · rw [hnext] at hk
    rcases List.mem_cons.1 hk with hk | hk
    · cases hk
      omega
    · exact h g k (by rw [htodo]; exact List.mem_cons_of_mem _ hk)
  · rw [hnext] at hk
    rcases List.mem_cons.1 hk with hk | hk
    · cases hk
    · exact h g k (by rw [htodo]; exact List.mem_cons_of_mem _ hk)

/-- **A statement is one less.** -/
theorem next_budget {p : UnpackProcess G Loc} (h : p.EntriesFit)
    (hrunning : (p.next E N opts target).status = .running) : (p.next E N opts target).budget < p.budget := by
  have hlt := p.vars.header.entriesLength.toNat_lt
  obtain htail | ⟨f, i, todo, htodo, hi, hnext⟩ | ⟨f, i, todo, htodo, hnext⟩ := p.next_todo E N opts target
  · rw [budget, budget, htail]
    cases htodo : p.todo with
    | nil =>
      rw [UnpackProcess.next, htodo] at hrunning
      cases hrunning
    | cons stmt todo =>
      have hpos := UnpackStmt.cost_pos stmt fun f i heq => h f i (by rw [htodo, heq]; exact List.mem_cons_self)
      rw [List.tail_cons, List.map_cons, List.sum_cons]
      omega
  · rw [budget, budget, hnext, htodo, List.map_cons, List.map_cons, List.sum_cons, List.sum_cons, UnpackStmt.cost,
      UnpackStmt.cost]
    omega
  · have hi := h f i (by rw [htodo]; exact List.mem_cons_self)
    rw [budget, budget, hnext, htodo, List.map_cons, List.map_cons, List.sum_cons, List.sum_cons, UnpackStmt.cost,
      UnpackStmt.cost]
    omega

/-- Whether an event is a statement. -/
def Event.isNext : Event → Bool
  | .next => true
  | _ => false

/-- The number of statements among the events. -/
def statements (es : List Event) : ℕ := es.countP Event.isNext

theorem step_status (E : Env) (N : Naming Loc) (opts : UnpackOptions) (target : String)
    {p : UnpackProcess G Loc} (h : p.status ≠ .running) (e : Event) :
    (p.step E N opts target e).status = p.status := by
  cases e with
  | next => rw [step, if_neg h]
  | call callers c =>
    rw [step]
    split_ifs <;> rfl
  | close =>
    rw [step]
    split_ifs <;> rfl

theorem run_status (E : Env) (N : Naming Loc) (opts : UnpackOptions) (target : String)
    {p : UnpackProcess G Loc} (h : p.status ≠ .running) (es : List Event) :
    (p.run E N opts target es).status = p.status := by
  induction es generalizing p with
  | nil => rfl
  | cons e es ih =>
    have hstep := step_status E N opts target h e
    exact (ih (by rwa [hstep])).trans hstep

theorem step_vars (E : Env) (N : Naming Loc) (opts : UnpackOptions) (target : String)
    {p : UnpackProcess G Loc} {e : Event} (h : p.status = .running → e.isNext = false) :
    (p.step E N opts target e).vars = p.vars := by
  cases e with
  | next =>
    rw [step, if_neg fun hp => ?_]
    cases h hp
  | call callers c =>
    rw [step]
    split_ifs <;> rfl
  | close =>
    rw [step]
    split_ifs <;> rfl

/-- A method call, or the close, leaves the statements as they are. -/
theorem step_todo (E : Env) (N : Naming Loc) (opts : UnpackOptions) (target : String)
    {p : UnpackProcess G Loc} {e : Event} (h : e.isNext = false) :
    (p.step E N opts target e).todo = p.todo := by
  cases e with
  | next => cases h
  | call callers c =>
    rw [step]
    split_ifs <;> rfl
  | close =>
    rw [step]
    split_ifs <;> rfl

/-- **Every run ends**, within a number of statements that is known at its start. -/
theorem run_ends {p : UnpackProcess G Loc} (h : p.EntriesFit) {es : List Event} (hes : p.budget ≤ statements es) :
    (p.run E N opts target es).status ≠ .running := by
  induction es generalizing p with
  | nil =>
    rw [budget] at hes
    exact absurd hes (by simp [statements])
  | cons e es ih =>
    by_cases hp : p.status = .running
    · cases he : e.isNext with
      | false =>
        have htodo := step_todo E N opts target (p := p) he
        refine ih (p := p.step E N opts target e) (by rwa [EntriesFit, htodo]) ?_
        rw [budget, htodo, ← budget]
        rwa [statements, List.countP_cons_of_neg (by simp [he])] at hes
      | true =>
        have hnext : p.step E N opts target e = p.next E N opts target := by
          cases e with
          | next => rw [step, if_pos hp]
          | _ => cases he
        by_cases hrunning : (p.next E N opts target).status = .running
        · have hless := next_budget h hrunning
          rw [statements, List.countP_cons_of_pos (by simp [he])] at hes
          have := ih (p := p.next E N opts target) h.next (by rw [statements]; omega)
          rwa [run, List.foldl_cons, hnext]
        · rw [run, List.foldl_cons, hnext]
          exact fun hend => hrunning ((run_status E N opts target hrunning es).symm.trans hend)
    · rw [run_status E N opts target hp]
      exact hp

end UnpackProcess

end Sfmf

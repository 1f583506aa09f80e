import Sfmf.Spec.Unpack
import Sfmf.Spec.Control
import Sfmf.Lib.Trace

/-!
# `main` of `sfmf-unpack`, under control over D-Bus (`tools/unpack.c`)

`unpackMain` composes the phases of a run. Here `main` goes statement by statement: the loops of
`foreach_unpack_entry` look at `opts->abort` before each entry, progress is signalled, and
between any two statements method calls can be answered. (The main loop also runs within
the statements, but what it can change there is only read by the next statement.)

The arithmetic of `float` in `draw_progress` is a parameter.
-/

namespace Sfmf

/-- The `float` arithmetic of `draw_progress`. -/
structure Gauge where
  Float32 : Type
  /-- `-1.f` -/
  initial : Float32
  /-- `progress`, of `steps.current`, `steps.total`, `i` and `entries_length` -/
  progress : ℤ → ℤ → ℤ → ℕ → Float32
  /-- `progress - last_progress < 0.005f` -/
  close : Float32 → Float32 → Bool
  /-- `100 * progress`, as an `int` -/
  percent : Float32 → ℤ

/-- The functions that are called by `foreach_unpack_entry`. -/
inductive UnpackPhase where
  | classifyEntry
  | downloadRequirements
  | writeEntry
  | setPermissions
  deriving DecidableEq, Repr

/-- The statements of `main`, once the options are parsed. -/
inductive UnpackStmt where
  | nextStep (message : String)
  /-- the manifest file, and its header -/
  | manifest
  /-- the local files -/
  | index
  | metadata
  | tables
  /-- the head of the loop of `foreach_unpack_entry` -/
  | check (f : UnpackPhase) (i : ℕ)
  /-- `f(opts, e)` -/
  | entry (f : UnpackPhase) (i : ℕ)
  | dirstackFree
  | finished
  deriving DecidableEq, Repr

/-- `main`, from the first `next_step` on. -/
def unpackStmts (opts : UnpackOptions) : List UnpackStmt :=
  [.nextStep "Downloading manifest file", .manifest, .nextStep "Indexing local files", .index, .metadata,
    .nextStep "Parsing manifest file", .tables, .nextStep "Classifying entries", .check .classifyEntry 0] ++
  (if opts.offlineMode then [] else [.nextStep "Downloading requirements", .check .downloadRequirements 0]) ++
  (if opts.downloadOnly then []
    else [.nextStep "Writing files", .check .writeEntry 0, .nextStep "Setting permissions", .check .setPermissions 0,
      .dirstackFree]) ++
  [.nextStep "Verifying entries", .finished]

/-- A file header cleared by `calloc`. -/
def SfmfFileHeader.zero : SfmfFileHeader := ⟨0, 0, 0, 0, 0, 0, 0⟩

/-- The variables of the phases, and the file system. -/
structure UnpackVars (Loc : Type) where
  state : CacheState
  data : Bytes
  header : SfmfFileHeader
  pos : ℕ
  localFiles : List FileEntry
  manifest : Manifest
  /-- the entries that are classified -/
  entries : List UnpackFileEntry
  dirStack : List DirStackEntry
  fs : FS Loc

section

variable (E : Env) {Loc : Type} [DecidableEq Loc] (N : Naming Loc) (opts : UnpackOptions)

/-- The manifest is downloaded, opened, and its header read. -/
def unpackManifest (v : UnpackVars Loc) : Exec (UnpackVars Loc) := do
  let (file, s) ← downloadPayloadFile E opts.source opts.offlineMode manifestFilename none false v.state
  cAssert (file.isSome) "opts->manifest_local_filename"
  match s.cache manifestFilename with
  | none => .error (.assertion "opts->fp")
  | some d =>
    let (header, pos) ← readHeader d
    return { v with state := s, data := d, header := header, pos := pos }

/-- The local files are indexed. -/
def unpackIndex (v : UnpackVars Loc) : Exec (UnpackVars Loc) := do
  let localFiles ← opts.sourcedirs.foldlM (extendFileList E opts.localDisk true .none) []
  return { v with localFiles := localFiles }

/-- The metadata is read. -/
def unpackMetadata (v : UnpackVars Loc) : Exec (UnpackVars Loc) := do
  let _ ← freadOne v.data v.pos v.header.metadataSize.toNat
  return v

/-- The tables are read. -/
def unpackTables (v : UnpackVars Loc) : Exec (UnpackVars Loc) := do
  let m ← readTables v.data v.header v.pos
  return { v with manifest := m }

/-- `f(opts, e)`, for the entry `i`. -/
def UnpackPhase.run (f : UnpackPhase) (i : ℕ) (v : UnpackVars Loc) : Exec (UnpackVars Loc) :=
  match f with
  | .classifyEntry =>
    match v.manifest.fentries[i]? with
    | none => .error .fault
    | some entry => do
      let (e, localFiles) ← unpackClassifyEntry E opts v.manifest v.localFiles entry
      return { v with entries := v.entries ++ [e], localFiles := localFiles }
  | .downloadRequirements =>
    match v.entries[i]? with
    | none => .error .fault
    | some e => do
      let s ← unpackDownloadRequirements E opts v.state e
      return { v with state := s }
  | .writeEntry =>
    match v.entries[i]? with
    | none => .error .fault
    | some e => do
      let fs ← unpackWriteEntry E N opts v.data v.manifest v.state.cache v.fs e
      return { v with fs := fs }
  | .setPermissions =>
    match v.entries[i]? with
    | none => .error .fault
    | some e => do
      let (stack, fs) ← unpackSetPermissions N (v.dirStack, v.fs) e
      return { v with dirStack := stack, fs := fs }

/-- `dirstack_free`, of the stack of the loop over the permissions. -/
def unpackDirstackFree (v : UnpackVars Loc) : Exec (UnpackVars Loc) := do
  let fs ← dirstackFree (unpackDirstackEntryPop N) v.dirStack v.fs
  return { v with dirStack := [], fs := fs }

end

/-- What is seen on the bus. -/
inductive BusEvent where
  | signal (args : ProgressArgs)
  | answer (call : MethodCall) (answer : Answer)
  deriving DecidableEq, Repr

/-- How a run stands. -/
inductive UnpackStatus where
  | running
  | success
  | stopped (why : Stop)
  deriving DecidableEq, Repr

/-- The process. Of `opts`, `abort` is what the callback has as its user data. -/
structure UnpackProcess (G : Gauge) (Loc : Type) where
  g : Control Bool
  abort : Bool
  current : ℤ
  total : ℤ
  lastProgress : G.Float32
  todo : List UnpackStmt
  vars : UnpackVars Loc
  status : UnpackStatus
  /-- what was seen on the bus, the latest first -/
  bus : List BusEvent

/-- `control_abort_cb`. -/
def controlAbortCb (_ : Bool) : Bool × Bool := (true, true)

/-- `"Operation aborted via D-Bus\n"`. -/
def aborted : Stop := .exit "Operation aborted via D-Bus"

namespace UnpackProcess

variable (E : Env) (G : Gauge) {Loc : Type} [DecidableEq Loc] (N : Naming Loc) (opts : UnpackOptions)
  (target : String)

/-- The process behind `sfmf_control_init`. -/
def start (cache : Dir) (fs : FS Loc) : UnpackProcess G Loc where
  g := .sfmfControlInit (some (some controlAbortCb))
  abort := false
  current := -1
  total := 8 - (if opts.offlineMode then 1 else 0) - (if opts.downloadOnly then 2 else 0)
  lastProgress := G.initial
  todo := unpackStmts opts
  vars := ⟨⟨cache, [], []⟩, [], .zero, 0, [], ⟨.zero, [], [], [], [], [], []⟩, [], [], fs⟩
  status := .running
  bus := []

variable {G}

/-- `sfmf_control_set_progress(getenv("SFMF_TARGET") ?: "-", progress, phase)`. -/
def setProgress (p : UnpackProcess G Loc) (progress : ℤ) (phase : Option String) : UnpackProcess G Loc :=
  let (g, signal) := p.g.setProgress (some target) progress phase
  { p with g := g, bus := (signal.map .signal).toList ++ p.bus }

/-- `draw_progress(opts, i, message)`, less what is printed. -/
def drawProgress (p : UnpackProcess G Loc) (i : ℤ) (message : String) : UnpackProcess G Loc :=
  let progress := G.progress p.current p.total i p.vars.header.entriesLength.toNat
  if 0 ≤ i ∧ G.close progress p.lastProgress = true then p
  else
    { p.setProgress target (G.percent progress) (if i = -1 then some message else none) with lastProgress := progress }

/-- A statement that can end the process. -/
def perform (p : UnpackProcess G Loc) (r : Exec (UnpackVars Loc)) : UnpackProcess G Loc :=
  match r with
  | .ok v => { p with vars := v }
  | .error why => { p with status := .stopped why }

/-- One statement. -/
def exec (p : UnpackProcess G Loc) : UnpackStmt → UnpackProcess G Loc
  | .nextStep message => { p with current := p.current + 1 }.drawProgress target (-1) message
  | .manifest => p.perform (unpackManifest E opts p.vars)
  | .index => p.perform (unpackIndex E opts p.vars)
  | .metadata => p.perform (unpackMetadata p.vars)
  | .tables => p.perform (unpackTables p.vars)
  | .check f i =>
    if i < p.vars.header.entriesLength.toNat then
      if p.abort then { p with status := .stopped aborted }
      else { p with todo := .entry f i :: p.todo }.drawProgress target i ""
    else p.drawProgress target (-2) "DONE"
  | .entry f i => { p with todo := .check f (i + 1) :: p.todo }.perform (f.run E N opts i p.vars)
  | .dirstackFree => p.perform (unpackDirstackFree N p.vars)
  | .finished => p.setProgress target 100 (some "FINISHED")

/-- The next statement; behind the last one, `opts->success = 1`. -/
def next (p : UnpackProcess G Loc) : UnpackProcess G Loc :=
  match p.todo with
  | [] => { p with status := .success }
  | stmt :: todo => { p with todo := todo }.exec E N opts target stmt

/-- What can happen next. The loss of the bus name is not among it: `sfmf_control_name_lost_cb` calls `exit`, at
whatever point it finds the process. -/
inductive Event where
  /-- the next statement -/
  | next
  /-- a method call, and what is known of its caller -/
  | call (callers : Callers) (call : MethodCall)
  /-- `sfmf_control_close`, at exit -/
  | close

/-- Whether the main loop may still run: in `main`, and in the cleanup at exit. -/
def alive (p : UnpackProcess G Loc) : Bool :=
  match p.status with
  | .running | .success | .stopped (.exit _) => true
  | .stopped _ => false

/-- Whether the process is about to exit. -/
def exits (p : UnpackProcess G Loc) : Bool :=
  match p.status with
  | .success | .stopped (.exit _) => true
  | _ => false

/-- A method call is answered. -/
def call (p : UnpackProcess G Loc) (callers : Callers) (c : MethodCall) : UnpackProcess G Loc :=
  let r := p.g.methodCallCb callers c p.abort
  { p with abort := r.2, bus := .answer c r.1 :: p.bus }

/-- **One event.** What cannot happen leaves the process as it is. -/
def step (p : UnpackProcess G Loc) : Event → UnpackProcess G Loc
  | .next => if p.status = .running then p.next E N opts target else p
  | .call callers c => if p.g.objectRegistration ∧ p.alive then p.call callers c else p
  | .close => if p.exits then { p with g := p.g.close } else p

end UnpackProcess

end Sfmf

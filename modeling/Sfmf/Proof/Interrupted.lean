import Sfmf.Proof.Session
import Sfmf.Proof.Classify
import Sfmf.Proof.FileEntry

/-!
# What a run of `sfmf-unpack` can come to

* `remaining_start`: the statements of `main` do what `unpackMain` does.
* `unpack_under_control`: whenever calls come in between, a run ends, with the result of
  `unpackMain` or with an `Abort` that was answered.
* `abort_is_final`: an `Abort` that was answered before the last entry is not lost.
-/

namespace Sfmf

variable {E : Env} {G : Gauge} {Loc : Type} [DecidableEq Loc] {N : Naming Loc} {opts : UnpackOptions}
  {target : String}

/-! ## The statements are `unpackMain` -/

/-- The variables behind the classification. -/
structure VarsClassified (fs : FS Loc) (v : UnpackVars Loc) (c : Classified) : Prop where
  state : v.state = c.state
  data : v.data = c.data
  manifest : v.manifest = c.manifest
  entries : v.entries = c.entries
  localFiles : v.localFiles = c.localFiles
  length : v.header.entriesLength.toNat = v.entries.length
  dirStack : v.dirStack = []
  fs : v.fs = fs

/-- The variables at the end, and the result of `unpackMain`. -/
structure VarsUnpacked (v : UnpackVars Loc) (r : Unpacked Loc) : Prop where
  data : v.data = r.classified.data
  manifest : v.manifest = r.classified.manifest
  entries : v.entries = r.classified.entries
  localFiles : v.localFiles = r.classified.localFiles
  state : v.state = r.state
  fs : v.fs = r.fs

theorem readTables_entries {d : Bytes} {header : SfmfFileHeader} {pos : ℕ} {m : Manifest}
    (h : readTables d header pos = .ok m) : m.fentries.length = header.entriesLength.toNat := by
  simp only [readTables, bind_ok] at h
  obtain ⟨_, -, _, -, _, -, h⟩ := h
  cases h
  exact readTable_length _ _ _ _ _ _

omit [DecidableEq Loc] in
/-- The metadata is read twice, with one outcome. -/
theorem unpackMetadata_bind (v : UnpackVars Loc) : (unpackMetadata v >>= unpackTables) = unpackTables v := by
  rw [unpackMetadata, unpackTables, readTables]
  cases hmeta : freadOne v.data v.pos v.header.metadataSize.toNat with
  | error why => rfl
  | ok p => simp only [ok_bind, pure_eq_ok, unpackTables, readTables, hmeta]

/-- An entry is classified behind others. -/
def classifyNext (E : Env) (opts : UnpackOptions) (m : Manifest) (t : List UnpackFileEntry × List FileEntry)
    (entry : SfmfFileEntry) : Exec (List UnpackFileEntry × List FileEntry) :=
  (fun r => (t.1 ++ [r.1], r.2)) <$> unpackClassifyEntry E opts m t.2 entry

/-- The loop over the entries of the manifest, with what it changes. -/
theorem classifyNext_foldlM (m : Manifest) (entries : List SfmfFileEntry) (es : List UnpackFileEntry)
    (localFiles : List FileEntry) : entries.foldlM (classifyNext E opts m) (es, localFiles) =
      (fun r => (es ++ r.1, r.2)) <$> classifyEntries E opts m localFiles entries := by
  induction entries generalizing es localFiles with
  | nil => simp [classifyEntries]
  | cons entry entries ih =>
    rw [List.foldlM_cons, classifyEntries, classifyNext]
    cases unpackClassifyEntry E opts m localFiles entry with
    | error why => rfl
    | ok r =>
      rw [ok_map, ok_bind, ok_bind, ih]
      cases hrest : classifyEntries E opts m r.2 entries <;> simp [hrest]

/-- The loop that classifies the entries. -/
theorem unpackLoop_classify {v : UnpackVars Loc} (hlen : v.header.entriesLength.toNat = v.manifest.fentries.length)
    (hentries : v.entries = []) :
    unpackLoop E N opts .classifyEntry 0 v =
      (fun r => { v with entries := r.1, localFiles := r.2 }) <$>
        classifyEntries E opts v.manifest v.localFiles v.manifest.fentries := by
  set embed : List UnpackFileEntry × List FileEntry → UnpackVars Loc := fun t =>
    { v with entries := t.1, localFiles := t.2 } with hembed
  have hloop := @foldlM_indices _ _ _ (fun v k => UnpackPhase.run E N opts .classifyEntry k v)
    (classifyNext E opts v.manifest) embed v.manifest.fentries 0
    (fun k entry t hk => by
      simp only [UnpackPhase.run, hembed, Nat.zero_add, hk, classifyNext]
      cases unpackClassifyEntry E opts v.manifest t.2 entry <;> rfl) ([], v.localFiles)
  have hstart : embed ([], v.localFiles) = v := by rw [hembed, ← hentries]
  rw [hstart, classifyNext_foldlM] at hloop
  rw [unpackLoop, hlen, List.drop_zero, List.range_eq_range', hloop]
  cases classifyEntries E opts v.manifest v.localFiles v.manifest.fentries <;> rfl

/-- A loop over the classified entries. -/
theorem unpackLoop_entries {τ : Type} {f : UnpackPhase} {g : τ → UnpackFileEntry → Exec τ} {v : UnpackVars Loc}
    (embed : τ → UnpackVars Loc) (hlen : v.header.entriesLength.toNat = v.entries.length)
    (hrun : ∀ k e t, v.entries[k]? = some e → f.run E N opts k (embed t) = embed <$> g t e) {t : τ} (ht : embed t = v) :
    unpackLoop E N opts f 0 v = embed <$> v.entries.foldlM g t := by
  have hloop := @foldlM_indices _ _ _ (fun v k => f.run E N opts k v) g embed v.entries 0
    (fun k e t hk => by rw [Nat.zero_add]; exact hrun k e t hk) t
  rw [unpackLoop, hlen, List.drop_zero, List.range_eq_range', ← hloop, ht]

/-- The statements of the classification. -/
def classifyStmts : List UnpackStmt :=
  [.nextStep "Downloading manifest file", .manifest, .nextStep "Indexing local files", .index, .metadata,
    .nextStep "Parsing manifest file", .tables, .nextStep "Classifying entries", .check .classifyEntry 0]

/-- What the process starts with. -/
def startVars (cache : Dir) (fs : FS Loc) : UnpackVars Loc :=
  ⟨⟨cache, [], []⟩, [], .zero, 0, [], ⟨.zero, [], [], [], [], [], []⟩, [], [], fs⟩

theorem classifyStmts_rel (cache : Dir) (fs : FS Loc) : Exec.Rel (VarsClassified fs)
    (classifyStmts.foldlM (UnpackStmt.denote E N opts) (startVars cache fs)) (unpackClassify E opts cache) := by
  simp only [classifyStmts, List.foldlM_cons, List.foldlM_nil, UnpackStmt.denote, ok_bind]
  simp only [unpackManifest, unpackClassify, bind_assoc]
  refine Exec.Rel.same fun r _ => ?_
  obtain ⟨file, s⟩ := r
  refine Exec.Rel.same fun _ _ => ?_
  simp only
  cases s.cache manifestFilename with
  | none => rfl
  | some d =>
    simp only [bind_assoc]
    refine Exec.Rel.same fun r _ => ?_
    obtain ⟨header, pos⟩ := r
    simp only [pure_eq_ok, ok_bind, unpackIndex, bind_assoc]
    refine Exec.Rel.same fun localFiles _ => ?_
    rw [← bind_assoc, unpackMetadata_bind]
    simp only [unpackTables, bind_assoc]
    refine Exec.Rel.same fun m hm => ?_
    simp only [pure_eq_ok, ok_bind]
    have hlen := readTables_entries hm
    rw [unpackLoop_classify hlen.symm rfl]
    cases hclass : classifyEntries E opts m localFiles m.fentries with
    | error why => rfl
    | ok r =>
      have hall := (classifyEntries_ok hclass).length_eq
      exact ⟨rfl, rfl, rfl, rfl, rfl, by rw [← hlen, hall], rfl, rfl⟩

/-- The statements of the downloads. -/
def downloadStmts (opts : UnpackOptions) : List UnpackStmt :=
  if opts.offlineMode then [] else [.nextStep "Downloading requirements", .check .downloadRequirements 0]

theorem downloadStmts_eq {fs : FS Loc} {v : UnpackVars Loc} {c : Classified} (h : VarsClassified fs v c) :
    (downloadStmts opts).foldlM (UnpackStmt.denote E N opts) v =
      (fun s => { v with state := s }) <$> unpackDownload E opts c := by
  unfold downloadStmts unpackDownload
  split_ifs with hoffline
  · simp [← h.state]
  · simp only [List.foldlM_cons, List.foldlM_nil, UnpackStmt.denote, ok_bind, bind_pure]
    rw [← h.entries, ← h.state]
    refine unpackLoop_entries (fun s => { v with state := s }) h.length (fun k e s hk => ?_) rfl
    simp only [UnpackPhase.run, hk]
    cases unpackDownloadRequirements E opts s e <;> rfl

/-- The statements of the writing. -/
def writeStmts (opts : UnpackOptions) : List UnpackStmt :=
  if opts.downloadOnly then []
  else [.nextStep "Writing files", .check .writeEntry 0, .nextStep "Setting permissions", .check .setPermissions 0, .dirstackFree]

theorem writeStmts_eq {fs : FS Loc} {v : UnpackVars Loc} {c : Classified} (h : VarsClassified fs v c) (s : CacheState) :
    (writeStmts opts).foldlM (UnpackStmt.denote E N opts) { v with state := s } =
      (fun fs => { v with state := s, fs := fs }) <$> unpackWrite E N opts c s fs := by
  have hdir : { v with state := s, fs := v.fs, dirStack := [] } = { v with state := s } := by rw [← h.dirStack]
  unfold writeStmts unpackWrite
  split_ifs with honly
  · simp [← h.fs]
  · simp only [List.foldlM_cons, List.foldlM_nil, UnpackStmt.denote, ok_bind, bind_pure]
    rw [← h.entries, ← h.fs, ← h.data, ← h.manifest]
    have hwrite := @unpackLoop_entries E Loc _ N opts _ .writeEntry
      (unpackWriteEntry E N opts v.data v.manifest s.cache) { v with state := s }
      (fun fs => { v with state := s, fs := fs }) h.length (fun k e fs hk => by
        simp only [UnpackPhase.run, hk]
        cases unpackWriteEntry E N opts v.data v.manifest s.cache fs e <;> rfl) v.fs rfl
    rw [hwrite]
    cases hfs : v.entries.foldlM (unpackWriteEntry E N opts v.data v.manifest s.cache) v.fs with
    | error why => rfl
    | ok fs₁ =>
      simp only [ok_map, ok_bind]
      have hperm := @unpackLoop_entries E Loc _ N opts _ .setPermissions (unpackSetPermissions N)
        { v with state := s, fs := fs₁ } (fun t => { v with state := s, dirStack := t.1, fs := t.2 }) h.length
        (fun k e t hk => by
          simp only [UnpackPhase.run, hk]
          cases unpackSetPermissions N t e <;> rfl) ([], fs₁) (by rw [← h.dirStack])
      rw [hperm]
      cases v.entries.foldlM (unpackSetPermissions N) ([], fs₁) with
      | error why => rfl
      | ok t =>
        simp only [ok_map, ok_bind, unpackDirstackFree]
        cases dirstackFree (unpackDirstackEntryPop N) t.1 t.2 with
        | error why => rfl
        | ok fs₂ =>
          rw [← h.dirStack]
          rfl

theorem unpackStmts_eq (opts : UnpackOptions) : unpackStmts opts =
    classifyStmts ++ (downloadStmts opts ++ (writeStmts opts ++ [.nextStep "Verifying entries", .finished])) := by
  unfold unpackStmts classifyStmts downloadStmts writeStmts
  simp only [List.append_assoc]

/-- **The statements of `main` are `unpackMain`.** -/
theorem remaining_start (E : Env) (G : Gauge) (N : Naming Loc) (opts : UnpackOptions) (cache : Dir) (fs : FS Loc) : Exec.Rel VarsUnpacked
    ((UnpackProcess.start G opts cache fs).remaining E N opts) (unpackMain E N opts cache fs) := by
  have hstmts : (UnpackProcess.start G opts cache fs).remaining E N opts =
      (unpackStmts opts).foldlM (UnpackStmt.denote E N opts) (startVars cache fs) := rfl
  rw [hstmts, unpackStmts_eq, List.foldlM_append, unpackMain]
  refine (classifyStmts_rel cache fs).bind fun v c hv => ?_
  rw [List.foldlM_append, downloadStmts_eq hv]
  cases unpackDownload E opts c with
  | error why => rfl
  | ok s =>
    rw [ok_map, ok_bind, ok_bind, List.foldlM_append, writeStmts_eq hv]
    cases unpackWrite E N opts c s fs with
    | error why => rfl
    | ok fs' => exact ⟨hv.data, hv.manifest, hv.entries, hv.localFiles, rfl, rfl⟩

namespace UnpackProcess

/-! ## Every run comes to the result of `unpackMain`, or is aborted -/

omit [DecidableEq Loc] in
theorem EntriesFit.start (opts : UnpackOptions) (cache : Dir) (fs : FS Loc) :
    (UnpackProcess.start G opts cache fs).EntriesFit := by
  intro f i h
  have hstmts : (UnpackProcess.start G opts cache fs).todo = unpackStmts opts := rfl
  rw [hstmts, unpackStmts] at h
  split_ifs at h <;> simp at h

/-- A process that has been told to abort, and will look at it before the entry `i` of a loop. While an entry is being
worked on, the check for the one after it is still to be set up: it counts from the next statement on. -/
structure Doomed (f : UnpackPhase) (i : ℕ) (p : UnpackProcess G Loc) : Prop where
  abort : p.abort = true
  manifest : UnpackStmt.manifest ∉ p.todo
  check : UnpackStmt.check f i ∈ p.todo
  bound : i < p.vars.header.entriesLength.toNat

omit [DecidableEq Loc] in
theorem perform_header {p : UnpackProcess G Loc} {r : Exec (UnpackVars Loc)}
    (h : ∀ v, r = .ok v → v.header = p.vars.header) : (p.perform r).vars.header = p.vars.header := by
  cases r with
  | error why => rfl
  | ok v => exact h v rfl

/-- Only the manifest sets the header. -/
theorem next_header {p : UnpackProcess G Loc} (h : UnpackStmt.manifest ∉ p.todo) :
    (p.next E N opts target).vars.header = p.vars.header := by
  rw [next]
  cases htodo : p.todo with
  | nil => rfl
  | cons stmt todo =>
    cases stmt with
    | manifest => exact absurd (by rw [htodo]; exact List.mem_cons_self) h
    | nextStep message => simp [exec]
    | finished => rfl
    | index =>
      refine perform_header fun v hv => ?_
      simp only [unpackIndex, bind_ok] at hv
      obtain ⟨_, -, hv⟩ := hv
      cases hv
      rfl
    | metadata =>
      refine perform_header fun v hv => ?_
      simp only [unpackMetadata, bind_ok] at hv
      obtain ⟨_, -, hv⟩ := hv
      cases hv
      rfl
    | tables =>
      refine perform_header fun v hv => ?_
      simp only [unpackTables, bind_ok] at hv
      obtain ⟨_, -, hv⟩ := hv
      cases hv
      rfl
    | dirstackFree =>
      refine perform_header fun v hv => ?_
      simp only [unpackDirstackFree, bind_ok] at hv
      obtain ⟨_, -, hv⟩ := hv
      cases hv
      rfl
    | entry f i => exact perform_header fun v hv => run_header hv
    | check f i =>
      simp only [exec]
      split_ifs <;> simp

/-- The check that a doomed process is doomed by. -/
theorem Doomed.next_check {f : UnpackPhase} {i : ℕ} {p : UnpackProcess G Loc} (h : p.Doomed f i) {todo : List UnpackStmt}
    (htodo : p.todo = .check f i :: todo) :
    p.next E N opts target = { p with todo := todo, status := .stopped aborted } := by
  rw [UnpackProcess.next, htodo]
  simp only [exec, if_pos h.bound, if_pos h.abort]

/-- **The next statement of a doomed process**: it stops, or is still doomed. -/
theorem Doomed.next {f : UnpackPhase} {i : ℕ} {p : UnpackProcess G Loc} (h : p.Doomed f i) (hp : p.status = .running) :
    (∃ why, (p.next E N opts target).status = .stopped why) ∨
      (p.next E N opts target).status = .running ∧ (p.next E N opts target).Doomed f i := by
  by_cases hhead : ∃ todo, p.todo = .check f i :: todo
  · -- the check that it is doomed by
    obtain ⟨todo, htodo⟩ := hhead
    exact .inl ⟨aborted, by rw [h.next_check htodo]⟩
  cases next_cases E N opts target hp with
  | succeeds htodo => exact absurd h.check (by rw [htodo]; exact List.not_mem_nil)
  | fails why hstatus => exact .inl ⟨why, hstatus⟩
  | aborts hstatus => exact .inl ⟨aborted, hstatus⟩
  | goes hstatus =>
    have hkeep : UnpackStmt.manifest ∉ (p.next E N opts target).todo ∧
        UnpackStmt.check f i ∈ (p.next E N opts target).todo := by
      have hcheck := h.check
      have hmanifest := h.manifest
      obtain htail | ⟨g, k, todo, htodo, -, hnext⟩ | ⟨g, k, todo, htodo, hnext⟩ := p.next_todo E N opts target
      · rw [htail]
        refine ⟨fun hmem => hmanifest (List.mem_of_mem_tail hmem), ?_⟩
        cases htodo : p.todo with
        | nil => exact absurd hcheck (by rw [htodo]; exact List.not_mem_nil)
        | cons stmt todo =>
          rw [htodo] at hcheck
          rcases List.mem_cons.1 hcheck with rfl | hmem
          · exact absurd ⟨todo, htodo⟩ hhead
          · exact hmem
      · rw [htodo] at hcheck hmanifest
        rw [hnext]
        rcases List.mem_cons.1 hcheck with heq | hmem
        · exact absurd ⟨todo, by rw [htodo, heq]⟩ hhead
        · exact ⟨by simpa using hmanifest, List.mem_cons_of_mem _ hmem⟩
      · rw [htodo] at hcheck hmanifest
        rw [hnext]
        exact ⟨by simpa using hmanifest, List.mem_cons_of_mem _ (by simpa using hcheck)⟩
    exact .inr ⟨hstatus, by rw [next_abort, h.abort], hkeep.1, hkeep.2, by rw [next_header h.manifest]; exact h.bound⟩

/-- **A doomed process stops**, or is still doomed. -/
theorem Doomed.step {f : UnpackPhase} {i : ℕ} {result : Exec (UnpackVars Loc)} {p : UnpackProcess G Loc}
    (hinv : p.RunInv E N opts result) (h : (∃ why, p.status = .stopped why) ∨ p.status = .running ∧ p.Doomed f i)
    (e : Event) : (∃ why, (p.step E N opts target e).status = .stopped why) ∨
      (p.step E N opts target e).status = .running ∧ (p.step E N opts target e).Doomed f i := by
  obtain ⟨why, hstopped⟩ | ⟨hrunning, h⟩ := h
  · refine .inl ⟨why, ?_⟩
    rw [step_status E N opts target (by simp [hstopped]), hstopped]
  cases e with
  | next =>
    rw [UnpackProcess.step, if_pos hrunning]
    exact h.next hrunning
  | call callers c =>
    rw [UnpackProcess.step]
    split_ifs with hp
    · refine .inr ⟨hrunning, ?_, h.manifest, h.check, h.bound⟩
      rw [call_abort (hinv.callbacks hp.1), h.abort, Bool.true_or]
    · exact .inr ⟨hrunning, h⟩
  | close =>
    rw [UnpackProcess.step]
    split_ifs
    · exact .inr ⟨hrunning, h.abort, h.manifest, h.check, h.bound⟩
    · exact .inr ⟨hrunning, h⟩

theorem Doomed.run (E : Env) (N : Naming Loc) (opts : UnpackOptions) (target : String)
    {f : UnpackPhase} {i : ℕ} {result : Exec (UnpackVars Loc)} {p : UnpackProcess G Loc}
    (hinv : p.RunInv E N opts result) (h : (∃ why, p.status = .stopped why) ∨ p.status = .running ∧ p.Doomed f i)
    (es : List Event) : (∃ why, (p.run E N opts target es).status = .stopped why) ∨
      (p.run E N opts target es).status = .running ∧ (p.run E N opts target es).Doomed f i := by
  induction es generalizing p with
  | nil => exact h
  | cons e es ih => exact ih (hinv.step e) (Doomed.step hinv h e)

/-- A doomed process at its check, or one that has stopped. -/
def AtCheck (f : UnpackPhase) (i : ℕ) (p : UnpackProcess G Loc) : Prop :=
  (∃ why, p.status = .stopped why) ∨ p.status = .running ∧ p.Doomed f i ∧ ∃ todo, p.todo = .check f i :: todo

/-- **At its check, a doomed process does nothing more.** -/
theorem AtCheck.step {f : UnpackPhase} {i : ℕ} {result : Exec (UnpackVars Loc)} {p : UnpackProcess G Loc}
    (hinv : p.RunInv E N opts result) (h : p.AtCheck f i) (e : Event) :
    (p.step E N opts target e).vars = p.vars ∧ (p.step E N opts target e).AtCheck f i := by
  obtain ⟨why, hstopped⟩ | ⟨hrunning, hd, todo, htodo⟩ := h
  · have hnot : p.status ≠ .running := by simp [hstopped]
    exact ⟨step_vars E N opts target fun hp => absurd hp hnot, .inl ⟨why, (step_status E N opts target hnot e).trans hstopped⟩⟩
  cases he : e.isNext with
  | false =>
    refine ⟨step_vars E N opts target fun _ => he, (Doomed.step hinv (.inr ⟨hrunning, hd⟩) e).imp_right fun h => ⟨h.1, h.2, todo, ?_⟩⟩
    rw [step_todo E N opts target he, htodo]
  | true =>
    have hnext : p.step E N opts target e = p.next E N opts target := by
      cases e with
      | next => rw [UnpackProcess.step, if_pos hrunning]
      | _ => cases he
    rw [hnext, hd.next_check htodo]
    exact ⟨rfl, .inl ⟨aborted, rfl⟩⟩

theorem AtCheck.run {f : UnpackPhase} {i : ℕ} {result : Exec (UnpackVars Loc)} {p : UnpackProcess G Loc}
    (hinv : p.RunInv E N opts result) (h : p.AtCheck f i) (es : List Event) :
    (p.run E N opts target es).vars = p.vars := by
  induction es generalizing p with
  | nil => rfl
  | cons e es ih =>
    obtain ⟨hvars, hstep⟩ := AtCheck.step hinv h e
    exact (ih (hinv.step e) hstep).trans hvars

theorem EntriesFit.step {p : UnpackProcess G Loc} (h : p.EntriesFit) (e : Event) :
    (p.step E N opts target e).EntriesFit := by
  cases he : e.isNext with
  | false => rwa [EntriesFit, step_todo E N opts target he]
  | true =>
    cases e with
    | next =>
      rw [UnpackProcess.step]
      split_ifs
      · exact h.next
      · exact h
    | _ => cases he

theorem EntriesFit.run {p : UnpackProcess G Loc} (h : p.EntriesFit) (es : List Event) :
    (p.run E N opts target es).EntriesFit := by
  induction es generalizing p with
  | nil => exact h
  | cons e es ih => exact ih (h.step e)

end UnpackProcess

/-! ## A run that is aborted -/

/-- The manifest of a directory. -/
def directoryManifest : Bytes :=
  SfmfFileHeader.encode ⟨sfmfMagicNumber, sfmfCurrentVersion, 1, 2, 1, 0, 0⟩ ++ ([0] ++ ([slash, 0] ++
    SfmfFileEntry.encode { SfmfFileEntry.zero with type := entryDirectory, mode := 0o40755 }))

/-- Unpack it from the cache directory. -/
def directoryOptions : UnpackOptions := ⟨[], false, false, .cache, letterTree.toDisk, []⟩

def directoryCache : Dir := fun name => if name = manifestFilename then some directoryManifest else none

/-- A gauge that tells nothing. -/
def Gauge.unit : Gauge := ⟨Unit, (), fun _ _ _ _ => (), fun _ _ => false, fun _ => 0⟩

/-- Callers that are all `root`. -/
def rootCallers : Callers := ⟨fun _ => some 1, fun _ => some (some "root", none)⟩

def abortCall : MethodCall := ⟨none, some sfmfDbusPath, some sfmfDbusInterface, some "Abort"⟩

/-- The events up to the first entry, and then an abort. -/
def abortEvents : List UnpackProcess.Event := List.replicate 8 .next ++ [.call rootCallers abortCall]

/-- The process that is told to abort before the first entry is classified. -/
abbrev directoryProcess : UnpackProcess Gauge.unit (List Bytes) :=
  (UnpackProcess.start Gauge.unit directoryOptions directoryCache (FS.oneDirectory [])).run (Env.ofTable []) (lexical [])
    directoryOptions "-" abortEvents

theorem directoryProcess_running : directoryProcess.status = .running := by rfl

theorem directoryProcess_todo : directoryProcess.todo = (unpackStmts directoryOptions).drop 8 := by
  decide +kernel

theorem directoryProcess_entries : directoryProcess.vars.header.entriesLength = 1 := by
  decide +kernel

theorem directoryProcess_doomed : directoryProcess.Doomed .classifyEntry 0 where
  abort := by rfl
  manifest := by
    rw [directoryProcess_todo]
    decide
  check := by
    rw [directoryProcess_todo]
    decide
  bound := by
    rw [directoryProcess_entries]
    decide

end Sfmf

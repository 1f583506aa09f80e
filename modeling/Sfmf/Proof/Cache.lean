import Sfmf.Lib.Trace
import Sfmf.Spec.Cache
import Sfmf.Proof.Classify
import Sfmf.Proof.FileEntry

/-!
# When nothing is left in a temporary cache

* `Unwinds`: the cleanup gets past the directory stack.
* `Tracked`: what is in the directory is in `cached_files`, or is what is being
  downloaded; which of them, by the next statement.
* `Tracked.step`: every step keeps it.
* `cache_left_empty_iff`: so the cleanup removes everything, at whatever point it
  runs, if it gets past the directory stack, and nothing otherwise.
* `downloadPayloadFile_reaches`, `unpackDownload_reaches`: the calls of the phases are
  such runs.
* `dirstackPush_runsTo`, `dirstackFree_runsTo`: so are the calls of `dirstack.c`.
-/

namespace Sfmf

variable {E : Env}

/-! ## Files of the directory -/

@[simp] theorem CacheFiles.lookup_unlink (files : CacheFiles) (name n : Bytes) :
    (files.unlink name).lookup n = if n = name then none else files.lookup n := by
  induction files with
  | nil => simp [unlink]
  | cons f files ih =>
    obtain ⟨m, d⟩ := f
    have ih : (List.filter (fun f => decide (f.1 ≠ name)) files).lookup n = if n = name then none else files.lookup n := ih
    by_cases hm : m = name
    · subst hm
      rw [unlink, List.filter_cons_of_neg (by simp), ih]
      by_cases hn : n = m
      · simp [hn]
      · simp [hn, List.lookup_cons, beq_false_of_ne hn]
    · rw [unlink, List.filter_cons_of_pos (by simpa using hm), List.lookup_cons, List.lookup_cons, ih]
      by_cases hn : n = m
      · subst hn
        simp [hm]
      · simp [beq_false_of_ne hn]

@[simp] theorem CacheFiles.lookup_write (files : CacheFiles) (name content n : Bytes) :
    (files.write name content).lookup n = if n = name then some content else files.lookup n := by
  have hrest := files.lookup_unlink name n
  rw [unlink] at hrest
  rw [write, List.lookup_cons, hrest]
  by_cases hn : n = name
  · simp [hn]
  · simp [hn, beq_false_of_ne hn]

namespace UnpackCache

variable {s : UnpackCache} {keep : Bool}

@[simp] theorem file_goto (pc : DownloadPc) (n : Bytes) : (s.goto pc).file n = s.file n := rfl

@[simp] theorem file_removeFile (name n : Bytes) :
    (s.removeFile name).file n = if n = name then none else s.file n := by
  unfold file removeFile
  cases s.cachedir <;> simp

theorem containsFilename_iff {name : Bytes} : s.containsFilename name = true ↔ name ∈ s.cachedFiles := by
  simp [containsFilename]

/-- A write is seen unless the directory is gone. -/
theorem file_writeFile {name n content : Bytes} (h : n ≠ name) : (s.writeFile name content).file n = s.file n := by
  unfold file writeFile
  cases s.cachedir <;> simp [h]

theorem file_writeFile_self {name content : Bytes} {files : CacheFiles} (h : s.cachedir = some files) :
    (s.writeFile name content).file name = some content := by
  simp [file, writeFile, h]

/-! ## The cleanup -/

/-- The removal of files, one after another. -/
theorem foldl_removeFile (names : List Bytes) (n : Bytes) :
    (names.foldl removeFile s).file n = if n ∈ names then none else s.file n := by
  induction names generalizing s with
  | nil => simp
  | cons name names ih =>
    rw [List.foldl_cons, ih, file_removeFile]
    by_cases hn : n = name <;> by_cases hm : n ∈ names <;> simp [hn, hm]

theorem file_removeTemporary (n : Bytes) :
    s.removeTemporary.file n = if s.temporaryDownload = some n then none else s.file n := by
  unfold removeTemporary
  cases ht : s.temporaryDownload with
  | none => simp
  | some name =>
    have hfile : ({ s.removeFile name with temporaryDownload := none } : UnpackCache).file n =
        (s.removeFile name).file n := rfl
    simp only [hfile, file_removeFile, Option.some.injEq, eq_comm (a := n)]

@[simp] theorem cachedFiles_removeTemporary : s.removeTemporary.cachedFiles = s.cachedFiles := by
  unfold removeTemporary
  cases s.temporaryDownload <;> rfl

/-- A directory without files is gone, or empty. -/
theorem empty_of_file (h : ∀ n, s.file n = none) {files : CacheFiles} (hfiles : s.cachedir = some files) : files = [] := by
  cases files with
  | nil => rfl
  | cons f files =>
    have hf := h f.1
    simp [file, hfiles] at hf

/-- What is in the directory is listed, or is the temporary download. -/
def Covered (s : UnpackCache) : Prop := ∀ name, s.file name ≠ none → name ∈ s.cachedFiles ∨ s.temporaryDownload = some name

/-- **The cleanup of a temporary directory** finds it empty in the end. -/
theorem Covered.removed (h : s.Covered) {files : CacheFiles} (hfiles : s.removeTemporary.removeCached.cachedir = some files) :
    files = [] := by
  refine empty_of_file (s := s.removeTemporary.removeCached) (fun n => ?_) hfiles
  rw [removeCached, foldl_removeFile, file_removeTemporary, cachedFiles_removeTemporary]
  split
  · rfl
  rename_i hn
  split
  · rfl
  rename_i ht
  by_contra hne
  exact (h n hne).elim hn ht

/-- **The cleanup gets past the directory stack**: there is none, or every directory on it gets its modification
time. -/
def Unwinds (s : UnpackCache) : Prop :=
  match s.dirStack with
  | .null => True
  | .stack entries => ∀ entry ∈ entries, s.lutimes entry.path = true
  | .dangling _ => False

instance (s : UnpackCache) : Decidable s.Unwinds := by unfold Unwinds; split <;> infer_instance

theorem popEntry_ok {entry : DirStackEntry} {u : Unit} : s.popEntry entry = .ok u ↔ s.lutimes entry.path = true := by
  unfold popEntry
  split <;> simp_all [failAndExit]

/-- Pops that all succeed. -/
theorem dirstackFree_ok {entries : List DirStackEntry} {u : Unit} :
    dirstackFree (fun _ entry => s.popEntry entry) entries () = .ok u ↔ ∀ entry ∈ entries, s.lutimes entry.path = true := by
  unfold dirstackFree
  induction entries with
  | nil => simp
  | cons entry entries ih => simp [bind_ok, popEntry_ok, ih]

theorem freeDirStack_ok (h : s.Unwinds) : s.freeDirStack = .ok { s with dirStack := .null } := by
  unfold freeDirStack
  unfold Unwinds at h
  cases hs : s.dirStack with
  | null => exact congrArg Except.ok (by rw [← hs])
  | stack entries =>
    rw [hs] at h
    have hpops : dirstackFree (fun _ entry => s.popEntry entry) entries () = .ok () := dirstackFree_ok.2 h
    simp only [hpops, ok_bind, pure_eq_ok]
  | dangling stack => rw [hs] at h; exact h.elim

theorem freeDirStack_error (h : ¬ s.Unwinds) : ∃ why, s.freeDirStack = .error why := by
  cases hfree : s.freeDirStack with
  | error why => exact ⟨why, rfl⟩
  | ok s' =>
    unfold freeDirStack at hfree
    refine absurd ?_ h
    unfold Unwinds
    cases hs : s.dirStack with
    | null => trivial
    | stack entries =>
      rw [hs] at hfree
      obtain ⟨_, hpops, _⟩ := bind_ok.1 hfree
      exact dirstackFree_ok.1 hpops
    | dangling stack => rw [hs] at hfree; cases hfree

/-- The cleanup behind the directory stack. -/
theorem unpackCleanup_unwinds (h : s.Unwinds) : s.unpackCleanup keep = if keep then
    ({ s with dirStack := .null } : UnpackCache).removeTemporary
    else { ({ s with dirStack := .null } : UnpackCache).removeTemporary.removeCached with
           cachedFiles := [], cachedir := rmdir ({ s with dirStack := .null } : UnpackCache).removeTemporary.removeCached.cachedir } := by
  simp only [unpackCleanup, freeDirStack_ok h]

/-- **A cleanup that does not get past the directory stack** does nothing. -/
theorem unpackCleanup_stuck (h : ¬ s.Unwinds) : s.unpackCleanup keep = s := by
  obtain ⟨why, hwhy⟩ := freeDirStack_error h
  simp only [unpackCleanup, hwhy]

/-- **The cleanup of a temporary directory** removes it, if it gets past the directory stack. -/
theorem Covered.cleanup (h : s.Covered) (hu : s.Unwinds) : (s.unpackCleanup false).cachedir = none := by
  have hc : ({ s with dirStack := .null } : UnpackCache).Covered := h
  rw [unpackCleanup_unwinds hu]
  change rmdir ({ s with dirStack := .null } : UnpackCache).removeTemporary.removeCached.cachedir = none
  cases hd : ({ s with dirStack := .null } : UnpackCache).removeTemporary.removeCached.cachedir with
  | none => rfl
  | some files => rw [hc.removed hd]; rfl

/-- The cleanup of a temporary directory, at every point. -/
theorem Covered.cleanup_iff (h : s.Covered) :
    (s.unpackCleanup false).cachedir = none ↔ s.cachedir = none ∨ s.Unwinds := by
  by_cases hu : s.Unwinds
  · exact ⟨fun _ => .inr hu, fun _ => h.cleanup hu⟩
  · rw [unpackCleanup_stuck hu, or_iff_left hu]

/-- **The cleanup of a persistent directory** removes the temporary download and nothing else. -/
theorem file_cleanup_keep {n : Bytes} (h : s.temporaryDownload ≠ some n) : (s.unpackCleanup true).file n = s.file n := by
  by_cases hu : s.Unwinds
  · rw [unpackCleanup_unwinds hu, if_pos rfl, file_removeTemporary]
    exact if_neg h
  · rw [unpackCleanup_stuck hu]

theorem file_cleanupRun_keep {n : Bytes} (h : s.temporaryDownload ≠ some n) :
    (s.sfmfCleanupRun true).file n = s.file n := by
  unfold sfmfCleanupRun
  split
  · exact file_cleanup_keep (s := { s with cleanupFunc := false }) h
  · rfl

/-! ## What is tracked -/

/-- The file that is written until it is listed or removed. -/
def downloading : DownloadPc → Option Bytes
  | .fetching call | .verify call | .append call | .unlink call => some call.filename
  | _ => none

/-- Statements at which everything is listed. -/
def settled : DownloadPc → Bool
  | .fetching _ | .verify _ | .append _ | .unlink _ | .stopped _ | .cleaned => false
  | _ => true

/-- Every file in the directory is listed. -/
def Listed (s : UnpackCache) : Prop := ∀ name, s.file name ≠ none → name ∈ s.cachedFiles

theorem Listed.covered (h : s.Listed) : s.Covered := fun name hn => .inl (h name hn)

/-- **What is in the directory is tracked**, by `temporary_download` from before it is made until after it
is listed or removed; the cleanup is still to come, or it was run, and on the condition `P` it has removed the
directory. -/
structure Tracked (P : Prop) (s : UnpackCache) : Prop where
  covered : s.Covered
  temporary : ∀ name, downloading s.pc = some name → s.temporaryDownload = some name
  listed : settled s.pc = true → s.Listed
  registered : s.pc ≠ .cleaned → s.cleanupFunc = true
  removed : s.pc = .cleaned → P → s.cachedir = none

variable {P : Prop}

theorem tracked_fresh : Tracked P fresh :=
  ⟨fun name h => absurd rfl h, fun name h => by simp [fresh, downloading] at h, fun _ name h => absurd rfl h,
    fun _ => rfl, fun h => DownloadPc.noConfusion h⟩

/-- What is tracked at a statement other than the last. -/
theorem Tracked.registered_at (h : Tracked P s) {pc : DownloadPc} (hpc : s.pc = pc) (hne : pc ≠ .cleaned) :
    s.cleanupFunc = true := h.registered (hpc ▸ hne)

theorem Tracked.temporary_at (h : Tracked P s) {pc : DownloadPc} {name : Bytes} (hpc : s.pc = pc)
    (hname : downloading pc = some name) : s.temporaryDownload = some name := h.temporary name (hpc ▸ hname)

theorem Tracked.listed_at (h : Tracked P s) {pc : DownloadPc} (hpc : s.pc = pc) (hset : settled pc = true) :
    s.Listed := h.listed (hpc ▸ hset)

/-- A step to a statement at which everything is listed. -/
theorem Listed.tracked (h : s.Listed) (hreg : s.cleanupFunc = true) (hpc : settled s.pc = true) : Tracked P s := by
  refine ⟨h.covered, fun name hname => ?_, fun _ => h, fun _ => hreg, fun hclean => ?_⟩
  · cases hs : s.pc <;> simp [hs, downloading, settled] at hname hpc
  · rw [hclean] at hpc
    cases hpc

/-- A step to a statement at which a download is under way. -/
theorem Covered.tracked (h : s.Covered) (hreg : s.cleanupFunc = true) {name : Bytes} (hpc : downloading s.pc = some name)
    (ht : s.temporaryDownload = some name) : Tracked P s := by
  refine ⟨h, fun n hn => ?_, fun hset => ?_, fun _ => hreg, fun hclean => ?_⟩
  · rw [← Option.some.inj (hpc.symm.trans hn)]
    exact ht
  · cases hs : s.pc <;> simp [hs, downloading, settled] at hset hpc
  · rw [hclean] at hpc
    cases hpc

/-- A step that stops. -/
theorem Covered.stopped (h : s.Covered) (hreg : s.cleanupFunc = true) (why : Stop) :
    Tracked P (s.goto (.stopped why)) :=
  ⟨h, fun name hn => by simp [goto, downloading] at hn, fun hset => Bool.noConfusion hset, fun _ => hreg,
    fun hclean => DownloadPc.noConfusion hclean⟩

/-- The check of a file leads to where it leads. -/
theorem Covered.verifyFile (h : s.Covered) (hreg : s.cleanupFunc = true) {call : DownloadCall} {hash : SfmfFileHash}
    {d : Bytes} {good bad : DownloadPc} (hgood : Tracked P (s.goto good)) (hbad : Tracked P (s.goto bad)) :
    Tracked P (s.verifyFile E call hash d good bad) := by
  unfold UnpackCache.verifyFile
  split
  · exact hgood
  · exact hbad
  · exact h.stopped hreg _

/-- `filelist_append` goes on with everything listed, or stops. -/
theorem filelistAppend_tracked {name : Bytes} {pc : DownloadPc}
    (h : ∀ n, s.file n ≠ none → n ∈ s.cachedFiles ∨ n = name) (hreg : s.cleanupFunc = true) (hpc : settled pc = true) :
    Tracked P (s.filelistAppend name pc) := by
  have hl : Listed { s with cachedFiles := s.cachedFiles ++ [name] } := by
    intro n hn
    rcases h n hn with hmem | rfl
    · exact List.mem_append_left _ hmem
    · exact List.mem_append_right _ List.mem_cons_self
  unfold UnpackCache.filelistAppend
  simp only
  split
  · exact Listed.tracked (s := UnpackCache.goto _ pc) hl hreg hpc
  · exact hl.covered.stopped hreg _

/-- Removing a file keeps the others listed. -/
theorem Listed.removeFile (h : s.Listed) (name : Bytes) : (s.removeFile name).Listed := by
  intro n hn
  rw [file_removeFile] at hn
  split at hn
  · exact absurd rfl hn
  · exact h n hn

/-! ## Steps -/

/-- **The next statement of a call of `dirstack.c`** changes the stack and the statement only. -/
structure StackStep (s s' : UnpackCache) : Prop where
  cachedir : s'.cachedir = s.cachedir
  cachedFiles : s'.cachedFiles = s.cachedFiles
  temporaryDownload : s'.temporaryDownload = s.temporaryDownload
  cleanupFunc : s'.cleanupFunc = s.cleanupFunc
  pc : s'.pc = s.pc ∨ s'.pc = .idle ∨ ∃ why, s'.pc = .stopped why

theorem dirstackPop_step (top : DirStackEntry) (stack : List DirStackEntry) : StackStep s (s.dirstackPop top stack) := by
  unfold dirstackPop
  split
  · exact ⟨rfl, rfl, rfl, rfl, .inl rfl⟩
  · exact ⟨rfl, rfl, rfl, rfl, .inr (.inr ⟨_, rfl⟩)⟩

theorem nextPush_step (current : DirStackEntry) : StackStep s (s.nextPush current) := by
  unfold nextPush
  split
  · exact ⟨rfl, rfl, rfl, rfl, .inr (.inl rfl)⟩
  · split
    · exact ⟨rfl, rfl, rfl, rfl, .inr (.inl rfl)⟩
    · exact dirstackPop_step _ _
    · exact ⟨rfl, rfl, rfl, rfl, .inr (.inr ⟨_, rfl⟩)⟩
  · exact ⟨rfl, rfl, rfl, rfl, .inl rfl⟩
  · exact ⟨rfl, rfl, rfl, rfl, .inr (.inr ⟨_, rfl⟩)⟩
  · exact ⟨rfl, rfl, rfl, rfl, .inr (.inr ⟨_, rfl⟩)⟩

theorem nextFree_step : StackStep s s.nextFree := by
  unfold nextFree
  split
  · exact ⟨rfl, rfl, rfl, rfl, .inl rfl⟩
  · exact dirstackPop_step _ _
  · exact ⟨rfl, rfl, rfl, rfl, .inl rfl⟩
  · exact ⟨rfl, rfl, rfl, rfl, .inr (.inl rfl)⟩
  · exact ⟨rfl, rfl, rfl, rfl, .inr (.inr ⟨_, rfl⟩)⟩

/-- Such a step keeps everything listed. -/
theorem StackStep.tracked {s' : UnpackCache} (hstep : StackStep s s') (h : Tracked P s) (hpc : settled s.pc = true)
    (hclean : s.pc ≠ .cleaned) : Tracked P s' := by
  have hlisted : s'.Listed := by
    intro n hn
    rw [file, hstep.cachedir] at hn
    rw [hstep.cachedFiles]
    exact h.listed hpc n hn
  have hreg : s'.cleanupFunc = true := hstep.cleanupFunc.trans (h.registered hclean)
  rcases hstep.pc with hsame | hidle | ⟨why, hstop⟩
  · exact hlisted.tracked hreg (hsame ▸ hpc)
  · exact hlisted.tracked hreg (by rw [hidle]; rfl)
  · have hstopped : s'.goto (.stopped why) = s' := by rw [goto, ← hstop]
    exact hstopped ▸ hlisted.covered.stopped hreg why

/-- **The next statement** keeps what is tracked. -/
theorem Tracked.next (h : Tracked P s) (offlineMode : Bool) : Tracked P (s.next E offlineMode) := by
  by_cases hclean : s.pc = .cleaned
  · rw [UnpackCache.next, hclean]
    exact h
  have hreg := h.registered hclean
  unfold UnpackCache.next
  -- a mere jump keeps what is known
  have hgo : ∀ {pc pc'}, s.pc = pc → settled pc = true → settled pc' = true → Tracked P (s.goto pc') :=
    fun hpc hset hset' => Listed.tracked (s := s.goto _) (h.listed_at hpc hset) hreg hset'
  have hdown : ∀ {pc pc' name}, s.pc = pc → downloading pc = some name → downloading pc' = some name →
      Tracked P (s.goto pc') :=
    fun hpc hname hname' => Covered.tracked (s := s.goto _) h.covered hreg hname' (h.temporary_at hpc hname)
  cases hpc : s.pc with
  | idle => exact h
  | fetching call => exact h
  | stopped why => exact h
  | cleaned => exact h
  | lookup call =>
    simp only
    split
    · split
      · exact hgo hpc rfl rfl
      · exact h.covered.verifyFile hreg (hgo hpc rfl rfl) (hgo hpc rfl rfl)
    · exact hgo hpc rfl rfl
  | appendCached call => exact filelistAppend_tracked (fun n hn => .inl (h.listed_at hpc rfl n hn)) hreg rfl
  | unlinkCached call => exact Listed.tracked (s := (s.removeFile _).goto _) ((h.listed_at hpc rfl).removeFile _) hreg rfl
  | lookupAgain call =>
    simp only
    split
    · exact hgo hpc rfl rfl
    · split
      · exact h.covered.stopped hreg _
      · exact hgo hpc rfl rfl
  | remember call =>
    -- from here on the file is covered, before it is there
    exact Covered.tracked (fun n hn => .inl (h.listed_at hpc rfl n hn)) hreg rfl rfl
  | verify call =>
    simp only
    split
    · exact hdown hpc rfl rfl
    · exact h.covered.verifyFile hreg (hdown hpc rfl rfl) (hdown hpc rfl rfl)
    · exact h.covered.stopped hreg _
  | append call =>
    refine filelistAppend_tracked (fun n hn => (h.covered n hn).imp_right fun ht => ?_) hreg rfl
    exact Option.some.inj (ht.symm.trans (h.temporary_at hpc rfl))
  | unlink call =>
    refine Listed.tracked (s := (s.removeFile _).goto _) (fun n hn => ?_) hreg rfl
    rw [file_goto, file_removeFile] at hn
    split at hn
    · exact absurd rfl hn
    rename_i hne
    refine (h.covered n hn).resolve_right fun ht => hne ?_
    exact Option.some.inj (ht.symm.trans (h.temporary_at hpc rfl))
  | release result => exact Listed.tracked (h.listed_at hpc rfl) hreg rfl
  | returned result => exact hgo hpc rfl rfl
  | dirstackPush current => exact (nextPush_step current).tracked h (by rw [hpc]; rfl) hclean
  | dirstackFree => exact nextFree_step.tracked h (by rw [hpc]; rfl) hclean

/-- The cleanup of a process that has not run it. -/
theorem sfmfCleanupRun_registered (hreg : s.cleanupFunc = true) :
    s.sfmfCleanupRun keep = ({ s with cleanupFunc := false } : UnpackCache).unpackCleanup keep := if_pos hreg

/-- What the cleanup leaves was there, and is still covered. -/
theorem Covered.unpackCleanup (h : s.Covered) :
    (s.unpackCleanup keep).Covered ∧ ∀ n, (s.unpackCleanup keep).file n ≠ none → s.file n ≠ none := by
  by_cases hu : s.Unwinds
  case neg =>
    rw [unpackCleanup_stuck hu]
    exact ⟨h, fun _ => id⟩
  cases keep with
  | false =>
    have hnone : ∀ n, (s.unpackCleanup false).file n = none := fun n => by rw [file, h.cleanup hu]; rfl
    exact ⟨fun n hn => absurd (hnone n) hn, fun n hn => absurd (hnone n) hn⟩
  | true =>
    rw [unpackCleanup_unwinds hu, if_pos rfl]
    refine ⟨fun n hn => ?_, fun n hn => ?_⟩ <;> rw [file_removeTemporary] at hn <;> split at hn
    · exact absurd rfl hn
    · rename_i ht
      rw [cachedFiles_removeTemporary]
      exact .inl ((h n hn).resolve_right ht)
    · exact absurd rfl hn
    · exact hn

/-- The cleanup, as the last thing the process does. -/
theorem Tracked.finish (h : Tracked P s) (hclean : s.pc ≠ .cleaned) (hP : P → keep = false ∧ s.Unwinds) :
    Tracked P (s.finish keep) := by
  have hcov : ({ s with cleanupFunc := false } : UnpackCache).Covered := h.covered
  have hrun : s.sfmfCleanupRun keep = _ := sfmfCleanupRun_registered (h.registered hclean)
  refine ⟨?_, fun name hn => by simp [UnpackCache.finish, goto, downloading] at hn, fun hset => Bool.noConfusion hset,
    fun hne => absurd rfl hne, fun _ hp => ?_⟩
  · unfold UnpackCache.finish
    rw [hrun]
    exact hcov.unpackCleanup.1
  · obtain ⟨rfl, hu⟩ := hP hp
    change (s.sfmfCleanupRun false).cachedir = none
    rw [hrun]
    exact hcov.cleanup hu

/-- Everything is listed where a call begins. -/
theorem Tracked.begins (h : Tracked P s) (hidle : s.pc = .idle) {pc : DownloadPc} (hpc : settled pc = true) :
    Tracked P (s.goto pc) :=
  Listed.tracked (s := s.goto pc) (h.listed_at hidle rfl) (h.registered_at hidle DownloadPc.noConfusion) hpc

/-- **Every step keeps what is tracked.** -/
theorem Tracked.step (h : Tracked P s) (offlineMode : Bool) (e : Event)
    (hP : e = .exit ∨ e = .signal → P → keep = false ∧ s.Unwinds) :
    Tracked P (s.step E offlineMode keep e) := by
  unfold UnpackCache.step
  cases e with
  | call call =>
    simp only
    split
    · rename_i hidle
      exact h.begins hidle rfl
    · exact h
  | next => exact h.next offlineMode
  | write content =>
    simp only
    split
    · rename_i call hpc
      have ht := h.temporary_at hpc rfl
      have hreg := h.registered_at hpc DownloadPc.noConfusion
      have hdown : downloading (s.writeFile call.filename content).pc = some call.filename := by
        change downloading s.pc = _
        rw [hpc]
        rfl
      refine Covered.tracked (fun n hn => ?_) hreg hdown ht
      by_cases hne : n = call.filename
      · exact .inr (hne ▸ ht)
      · rw [file_writeFile hne] at hn
        exact h.covered n hn
    · exact h
  | fetched =>
    simp only
    split
    · rename_i call hpc
      exact Covered.tracked (s := s.goto _) h.covered (h.registered_at hpc DownloadPc.noConfusion) rfl
        (h.temporary_at hpc rfl)
    · exact h
  | fetchFails why =>
    simp only
    split
    · rename_i call hpc
      exact h.covered.stopped (h.registered_at hpc DownloadPc.noConfusion) why
    · exact h
  | execFails =>
    simp only
    split
    · rename_i call hpc
      have hreg := h.registered_at hpc DownloadPc.noConfusion
      -- the child leaves no file that was not there
      refine Covered.stopped (s := { s with cachedir := (s.sfmfCleanupRun keep).cachedir }) (fun n hn => h.covered n ?_)
        hreg _
      rw [sfmfCleanupRun_registered hreg] at hn
      exact (Covered.unpackCleanup (s := { s with cleanupFunc := false }) h.covered).2 n hn
    · exact h
  | exit =>
    simp only
    split
    · rename_i hexits
      exact h.finish (fun hclean => by simp [UnpackCache.exits, hclean] at hexits) (hP (.inl rfl))
    · exact h
  | signal =>
    simp only
    split
    · rename_i halive
      exact h.finish (fun hclean => by simp [UnpackCache.alive, hclean] at halive) (hP (.inr rfl))
    · exact h
  | dirstackNew =>
    simp only
    split
    · exact ⟨h.covered, h.temporary, h.listed, h.registered, h.removed⟩
    · exact h
  | dirstackPush current =>
    simp only
    split
    · rename_i hidle
      exact h.begins hidle rfl
    · exact h
  | dirstackFree =>
    simp only
    split
    · rename_i hidle
      exact h.begins hidle rfl
    · exact h
  | lutimes succeeds => exact ⟨h.covered, h.temporary, h.listed, h.registered, h.removed⟩

/-- Every cleanup in the first steps of a run gets past the directory stack. -/
def CleanupsUnwind (E : Env) (offlineMode : Bool) (es : List Event) (n : ℕ) : Prop :=
  ∀ k < n, ∀ e, es[k]? = some e → e = .exit ∨ e = .signal →
    (stateAt (UnpackCache.step E offlineMode false) fresh es k).Unwinds

/-- **What a run has in its directory is tracked**, at every point of it, and the directory is removed if the cleanup
gets past the directory stack. -/
theorem tracked_run (offlineMode : Bool) (es : List Event) (n : ℕ) :
    Tracked (CleanupsUnwind E offlineMode es n) (stateAt (UnpackCache.step E offlineMode false) fresh es n) := by
  have hrun : ∀ m ≤ es.length, m ≤ n →
      Tracked (CleanupsUnwind E offlineMode es n) (stateAt (UnpackCache.step E offlineMode false) fresh es m) := by
    intro m
    induction m with
    | zero => exact fun _ _ => tracked_fresh
    | succ m ih =>
      intro hm hmn
      rw [stateAt_succ (by omega)]
      exact (ih (by omega) (by omega)).step offlineMode es[m] fun he hu =>
        ⟨rfl, hu m (by omega) es[m] (List.getElem?_eq_getElem (by omega)) he⟩
  rcases le_total n es.length with hn | hn
  · exact hrun n hn le_rfl
  · have hall : es.take n = es.take es.length := by rw [List.take_of_length_le hn, List.take_length]
    rw [stateAt, hall]
    exact hrun es.length le_rfl hn

/-- The steps that run the cleanup keep whatever is not being downloaded into a persistent directory. -/
theorem step_keep {offlineMode : Bool} {e : Event} (he : e = .exit ∨ e = .signal ∨ e = .execFails) {n : Bytes}
    (hn : s.temporaryDownload ≠ some n) : (s.step E offlineMode true e).file n = s.file n := by
  have hrun := file_cleanupRun_keep hn
  unfold UnpackCache.step
  rcases he with rfl | rfl | rfl
  all_goals
    simp only
    split
    · exact hrun
    · rfl

/-- **What the cleanup of a temporary directory leaves.** Each file is listed in `cached_files` or named by
`temporary_download`, so that the removals leave the directory empty, and `rmdir` removes it: if the cleanup gets
past the directory stack, and nothing is removed otherwise. -/
structure LeavesNothing (s : UnpackCache) : Prop where
  covered : ∀ name, s.file name ≠ none → name ∈ s.cachedFiles ∨ s.temporaryDownload = some name
  emptied : ∀ files, s.removeTemporary.removeCached.cachedir = some files → files = []
  removed_iff : (s.unpackCleanup false).cachedir = none ↔ s.cachedir = none ∨ s.Unwinds
  left : ¬ s.Unwinds → (s.unpackCleanup false).cachedir = s.cachedir

/-- **The cleanup of a persistent directory keeps the cache**: whichever way it is run, it removes no file
other than `temporary_download`. -/
structure KeepsCache (E : Env) (offlineMode : Bool) (s : UnpackCache) : Prop where
  cleanup : ∀ name, s.temporaryDownload ≠ some name → (s.unpackCleanup true).file name = s.file name
  steps : ∀ name, s.temporaryDownload ≠ some name → ∀ e, e = .exit ∨ e = .signal ∨ e = .execFails →
    (s.step E offlineMode true e).file name = s.file name

end UnpackCache

/-- A run of `sfmf-unpack` in which `lutimes` fails for a directory that another one, which comes after it, makes
inaccessible: the manifest is downloaded, and the stack is handed `o/d`, `o/d/e` and `o/`. -/
def lockedOutRun : List UnpackCache.Event :=
  [.call ⟨manifestFilename, none, false⟩, .next, .next, .next, .write [1], .fetched, .next, .next, .next, .next,
    .dirstackNew, .dirstackPush ⟨str ['o', '/', 'd'], .zero⟩, .next,
    .dirstackPush ⟨str ['o', '/', 'd', '/', 'e'], .zero⟩, .next, .lutimes fun path => path = str ['o', '/'],
    .dirstackPush ⟨str ['o', '/'], .zero⟩, .next, .exit]

namespace UnpackCache

/-- Some statements, one after another, without an interruption. -/
inductive RunsTo (E : Env) (offlineMode : Bool) : UnpackCache → UnpackCache → Prop where
  | refl (s : UnpackCache) : RunsTo E offlineMode s s
  | next {s s' : UnpackCache} : RunsTo E offlineMode (s.next E offlineMode) s' → RunsTo E offlineMode s s'

variable {offlineMode : Bool}

theorem RunsTo.one {s' : UnpackCache} (h : s.next E offlineMode = s') : RunsTo E offlineMode s s' := .next (h ▸ .refl _)

theorem RunsTo.trans {s₁ s₂ s₃ : UnpackCache} (h : RunsTo E offlineMode s₁ s₂) (h' : RunsTo E offlineMode s₂ s₃) :
    RunsTo E offlineMode s₁ s₃ := by
  induction h with
  | refl => exact h'
  | next _ ih => exact .next (ih h')

/-- **A pop that succeeds** takes the top off, in two statements. -/
theorem dirstackPop_runsTo {top : DirStackEntry} {stack : List DirStackEntry}
    (hnext : s.next E offlineMode = s.dirstackPop top stack)
    (hdangling : ({ s with dirStack := .dangling (some stack) } : UnpackCache).next E offlineMode =
      { s with dirStack := .stack stack }) (hpop : s.popEntry top = .ok ()) :
    RunsTo E offlineMode s { s with dirStack := .stack stack } := by
  refine .next (.one ?_)
  rw [hnext, dirstackPop, hpop]
  exact hdangling

/-- **A pop that fails** leaves the top on the stack. -/
theorem dirstackPop_stops {top : DirStackEntry} {stack : List DirStackEntry} {why : Stop}
    (hs : s.dirStack = .stack (top :: stack)) (hnext : s.next E offlineMode = s.dirstackPop top stack)
    (hpop : s.popEntry top = .error why) :
    RunsTo E offlineMode s { s with dirStack := .stack (top :: stack), pc := .stopped why } := by
  refine .one ?_
  rw [hnext, dirstackPop, hpop, ← hs]
  rfl

/-- **The statements of `dirstack_push` are the call**: they end with the stack that it returns, or where it stops,
with what it has left of the stack. -/
theorem dirstackPush_runsTo {current : DirStackEntry} : ∀ {stack : List DirStackEntry} {s : UnpackCache},
    s.pc = .dirstackPush current → s.dirStack = .stack stack →
    (∀ stack', dirstackPush (fun _ entry => s.popEntry entry) current stack () = .ok (stack', ()) →
      RunsTo E offlineMode s { s with dirStack := .stack stack', pc := .idle }) ∧
    ∀ why, dirstackPush (fun _ entry => s.popEntry entry) current stack () = .error why →
      ∃ left, left <:+ stack ∧ RunsTo E offlineMode s { s with dirStack := .stack left, pc := .stopped why } := by
  intro stack
  induction stack with
  | nil =>
    intro s hpc hs
    refine ⟨fun stack' h => ?_, fun why h => by cases h⟩
    cases h
    exact .one (by simp only [UnpackCache.next, hpc, nextPush, hs])
  | cons top stack ih =>
    intro s hpc hs
    have hnext : s.next E offlineMode = s.nextPush current := by simp only [UnpackCache.next, hpc]
    simp only [dirstackPush]
    cases hbelow : isPrefixOf top.path current.path with
    | error why =>
      have hstop : s.next E offlineMode = { s with dirStack := .stack (top :: stack), pc := .stopped why } := by
        simp only [hnext, nextPush, hs, hbelow, goto]
      refine ⟨fun stack' h => (by cases h), fun why' h => ⟨top :: stack, List.suffix_refl _, .one ?_⟩⟩
      cases h
      exact hstop
    | ok below =>
      cases below with
      | true =>
        refine ⟨fun stack' h => ?_, fun why h => by cases h⟩
        cases h
        exact .one (by simp only [hnext, nextPush, hs, hbelow])
      | false =>
        have hpopped : s.next E offlineMode = s.dirstackPop top stack := by
          simp only [hnext, nextPush, hs, hbelow]
        simp only [ok_bind, Bool.false_eq_true, if_false]
        cases hpop : s.popEntry top with
        | error why =>
          refine ⟨fun stack' h => (by cases h), fun why' h => ⟨top :: stack, List.suffix_refl _, ?_⟩⟩
          cases h
          exact dirstackPop_stops hs hpopped hpop
        | ok u =>
          have hpop' := dirstackPop_runsTo hpopped (by simp only [UnpackCache.next, hpc, nextPush]) hpop
          obtain ⟨hok, herror⟩ := ih (s := { s with dirStack := .stack stack }) hpc rfl
          refine ⟨fun stack' h => hpop'.trans (hok stack' h), fun why h => ?_⟩
          obtain ⟨left, hleft, hrun⟩ := herror why h
          exact ⟨left, hleft.trans (List.suffix_cons top stack), hpop'.trans hrun⟩

/-- **The statements of `dirstack_free` are the call**, with `opts->dir_stack = 0` after it. -/
theorem dirstackFree_runsTo : ∀ {stack : List DirStackEntry} {s : UnpackCache},
    s.pc = .dirstackFree → s.dirStack = .stack stack →
    (dirstackFree (fun _ entry => s.popEntry entry) stack () = .ok () →
      RunsTo E offlineMode s { s with dirStack := .null, pc := .idle }) ∧
    ∀ why, dirstackFree (fun _ entry => s.popEntry entry) stack () = .error why →
      ∃ left, left <:+ stack ∧ RunsTo E offlineMode s { s with dirStack := .stack left, pc := .stopped why } := by
  intro stack
  induction stack with
  | nil =>
    intro s hpc hs
    refine ⟨fun _ => .next (.one ?_), fun why h => by cases h⟩
    simp only [UnpackCache.next, hpc, nextFree, hs]
  | cons top stack ih =>
    intro s hpc hs
    have hnext : s.next E offlineMode = s.dirstackPop top stack := by
      simp only [UnpackCache.next, hpc, nextFree, hs]
    simp only [dirstackFree, List.foldlM_cons]
    cases hpop : s.popEntry top with
    | error why =>
      refine ⟨fun h => (by cases h), fun why' h => ⟨top :: stack, List.suffix_refl _, ?_⟩⟩
      cases h
      exact dirstackPop_stops hs hnext hpop
    | ok u =>
      have hpop' := dirstackPop_runsTo hnext (by simp only [UnpackCache.next, hpc, nextFree]) hpop
      obtain ⟨hok, herror⟩ := ih (s := { s with dirStack := .stack stack }) hpc rfl
      refine ⟨fun h => hpop'.trans (hok h), fun why h => ?_⟩
      obtain ⟨left, hleft, hrun⟩ := herror why h
      exact ⟨left, hleft.trans (List.suffix_cons top stack), hpop'.trans hrun⟩

end UnpackCache

/-! ## The calls of the phases -/

namespace UnpackCache

/-- At a statement, with the cache of the phases. -/
structure Represents (pc : DownloadPc) (s : UnpackCache) (c : CacheState) : Prop where
  pc : s.pc = pc
  dir : s.cachedir ≠ none
  file : ∀ name, s.file name = c.cache name
  cachedFiles : s.cachedFiles = c.cachedFiles

/-- A run gets to a statement, with the cache of the phases. -/
def Reaches (E : Env) (offlineMode keep : Bool) (s : UnpackCache) (pc : DownloadPc) (c : CacheState) : Prop :=
  ∃ es : List Event, Represents pc (es.foldl (UnpackCache.step E offlineMode keep) s) c

variable {offlineMode : Bool} {c c' : CacheState} {pc pc' : DownloadPc} {call : DownloadCall}

theorem Represents.reaches (h : Represents pc s c) : Reaches E offlineMode keep s pc c := ⟨[], h⟩

/-- One run after another. -/
theorem Reaches.bind (h : Reaches E offlineMode keep s pc c)
    (h' : ∀ s, Represents pc s c → Reaches E offlineMode keep s pc' c') : Reaches E offlineMode keep s pc' c' := by
  obtain ⟨es, hes⟩ := h
  obtain ⟨es', hes'⟩ := h' _ hes
  exact ⟨es ++ es', by rw [List.foldl_append]; exact hes'⟩

theorem Reaches.step {e : Event} (h : Represents pc' (s.step E offlineMode keep e) c') :
    Reaches E offlineMode keep s pc' c' := ⟨[e], h⟩

/-- A statement that only jumps. -/
theorem Represents.jump (h : Represents pc s c) (hnext : s.next E offlineMode = s.goto pc') :
    Reaches E offlineMode keep s pc' c := by
  refine Reaches.step (e := .next) ?_
  change Represents pc' (s.next E offlineMode) c
  rw [hnext]
  exact ⟨rfl, h.dir, h.file, h.cachedFiles⟩

/-- `filelist_append`, of a file that is there. -/
theorem Represents.append {name d : Bytes} (h : Represents pc s c) (hd : c.cache name = some d)
    (hnext : s.next E offlineMode = s.filelistAppend name pc') :
    Reaches E offlineMode keep s pc' { c with cachedFiles := c.cachedFiles ++ [name] } := by
  have hfile : ({ s with cachedFiles := s.cachedFiles ++ [name] } : UnpackCache).file name = some d :=
    (h.file name).trans hd
  have happend : s.filelistAppend name pc' = ({ s with cachedFiles := s.cachedFiles ++ [name] } : UnpackCache).goto pc' := by
    simp only [filelistAppend, hfile]
  refine Reaches.step (e := .next) ?_
  change Represents pc' (s.next E offlineMode) _
  rw [hnext, happend]
  exact ⟨rfl, h.dir, h.file, congrArg (· ++ [name]) h.cachedFiles⟩

/-- `unlink`. -/
theorem Represents.unlink {name : Bytes} (h : Represents pc s c)
    (hnext : s.next E offlineMode = (s.removeFile name).goto pc') :
    Reaches E offlineMode keep s pc' { c with cache := c.cache.unlink name } := by
  refine Reaches.step (e := .next) ?_
  change Represents pc' (s.next E offlineMode) _
  rw [hnext]
  refine ⟨rfl, ?_, fun n => ?_, h.cachedFiles⟩
  · change Option.map _ s.cachedir ≠ none
    simpa using h.dir
  · rw [file_goto, file_removeFile, h.file]
    rfl

/-- **The first part of a call.** -/
theorem checkCached_reaches (h : Represents (.lookup call) s c)
    (hcheck : checkCached E call.filename call.expectedHash call.isCompressed c = .ok c') :
    Reaches E offlineMode keep s (.lookupAgain call) c' := by
  have hfile := h.file call.filename
  unfold checkCached at hcheck
  split at hcheck
  · rename_i d hash hd hhash
    rw [hd] at hfile
    have hcontains : s.containsFilename call.filename = true ↔ call.filename ∈ c.cachedFiles := by
      rw [containsFilename_iff, h.cachedFiles]
    split at hcheck
    · rename_i hmem
      cases hcheck
      exact h.jump (by simp [UnpackCache.next, h.pc, hfile, hhash, hcontains, hmem])
    · rename_i hmem
      simp only [bind_ok] at hcheck
      obtain ⟨verified, hverify, hcheck⟩ := hcheck
      cases verified with
      | true =>
        cases hcheck
        have hjump : Reaches E offlineMode keep s (.appendCached call) c :=
          h.jump (by simp [UnpackCache.next, h.pc, hfile, hhash, hcontains, hmem, UnpackCache.verifyFile, hverify])
        exact hjump.bind fun s h => h.append hd (by simp only [UnpackCache.next, h.pc])
      | false =>
        cases hcheck
        have hjump : Reaches E offlineMode keep s (.unlinkCached call) c :=
          h.jump (by simp [UnpackCache.next, h.pc, hfile, hhash, hcontains, hmem, UnpackCache.verifyFile, hverify])
        exact hjump.bind fun s h => h.unlink (by simp only [UnpackCache.next, h.pc])
  · rename_i hno
    cases hcheck
    refine h.jump ?_
    simp only [UnpackCache.next, h.pc, hfile]
    split
    · rename_i hash d hhash hd
      exact (hno d hash hd hhash).elim
    · rfl

/-- **The second part of a call**, from where the download is due. -/
theorem downloadMissing_reaches {source : PayloadSource} {file : Option Bytes} (h : Represents (.lookupAgain call) s c)
    (hnone : c.cache call.filename = none) (hdown : downloadMissing E source offlineMode call.filename call.expectedHash
      call.isCompressed c = .ok (file, c')) : Reaches E offlineMode keep s (.returned file) c' := by
  have hfile := (h.file call.filename).trans hnone
  unfold downloadMissing at hdown
  cases offlineMode with
  | true => simp at hdown
  | false =>
  simp only [Bool.false_eq_true, if_false, bind_ok] at hdown
  obtain ⟨content, _, hdown⟩ := hdown
  set c₁ : CacheState := { c with cache := c.cache.write call.filename content,
                                  downloads := c.downloads ++ [call.filename] } with hc₁
  -- up to the download
  have hremember : Reaches E false keep s (.remember call) c := h.jump (by simp [UnpackCache.next, h.pc, hfile])
  have hfetching : Reaches E false keep s (.fetching call) c := by
    refine hremember.bind fun s h => Reaches.step (e := .next) ?_
    change Represents _ (s.next E false) c
    simp only [UnpackCache.next, h.pc]
    exact ⟨rfl, h.dir, h.file, h.cachedFiles⟩
  have hverify : Reaches E false keep s (.verify call) c₁ := by
    refine hfetching.bind fun s h => ?_
    have hwritten : Reaches E false keep s (.fetching call) c₁ := by
      refine Reaches.step (e := .write content) ?_
      have hwrite : s.step E false keep (.write content) = s.writeFile call.filename content := by
        simp only [UnpackCache.step, h.pc]
      rw [hwrite]
      refine ⟨h.pc, ?_, fun n => ?_, h.cachedFiles⟩
      · change Option.map _ s.cachedir ≠ none
        simpa using h.dir
      · by_cases hn : n = call.filename
        · subst hn
          obtain ⟨files, hfiles⟩ := Option.ne_none_iff_exists'.1 h.dir
          rw [file_writeFile_self hfiles, hc₁]
          exact (if_pos rfl).symm
        · rw [file_writeFile hn, h.file]
          exact (if_neg hn).symm
    refine hwritten.bind fun s h => Reaches.step (e := .fetched) ?_
    simp only [UnpackCache.step, h.pc]
    exact ⟨rfl, h.dir, h.file, h.cachedFiles⟩
  have hd : c₁.cache call.filename = some content := if_pos rfl
  -- from the check of the download on
  have hrelease : ∀ {result : Option Bytes} {c₂ : CacheState} {s : UnpackCache}, Represents (.release result) s c₂ →
      Reaches E false keep s (.returned result) c₂ := fun h => Reaches.step (e := .next) (by
    rename_i s
    change Represents _ (s.next E false) _
    simp only [UnpackCache.next, h.pc]
    exact ⟨rfl, h.dir, h.file, h.cachedFiles⟩)
  have happend : Reaches E false keep s (.append call) c₁ →
      Reaches E false keep s (.returned (some call.filename))
        { c₁ with cachedFiles := c₁.cachedFiles ++ [call.filename] } := fun hreach =>
    (hreach.bind fun s h => h.append hd (by simp only [UnpackCache.next, h.pc])).bind fun s h => hrelease h
  cases hhash : call.expectedHash with
  | none =>
    rw [hhash] at hdown
    cases hdown
    exact happend (hverify.bind fun s h => h.jump (by simp only [UnpackCache.next, h.pc, hhash]))
  | some hash =>
    rw [hhash] at hdown
    simp only [bind_ok] at hdown
    obtain ⟨verified, hverified, hdown⟩ := hdown
    have hchecked : Reaches E false keep s (if verified then .append call else .unlink call) c₁ := by
      refine hverify.bind fun s h => h.jump ?_
      have hfile := (h.file call.filename).trans hd
      simp only [UnpackCache.next, h.pc, hhash, hfile, UnpackCache.verifyFile, hverified]
      cases verified <;> rfl
    cases verified with
    | true =>
      cases hdown
      exact happend hchecked
    | false =>
      cases hdown
      exact (hchecked.bind fun s h => h.unlink (by
        rw [if_neg Bool.false_ne_true] at h
        simp only [UnpackCache.next, h.pc])).bind fun s h => hrelease h

/-- **A call that returns is a run** from its first statement to its return, with the same cache. -/
theorem downloadPayloadFile_reaches {source : PayloadSource} {file : Option Bytes} (h : Represents .idle s c)
    (hdown : downloadPayloadFile E source offlineMode call.filename call.expectedHash call.isCompressed c =
      .ok (file, c')) : Reaches E offlineMode keep s (.returned file) c' := by
  simp only [downloadPayloadFile, bind_ok] at hdown
  obtain ⟨c₁, hcheck, hdown⟩ := hdown
  have hcall : Reaches E offlineMode keep s (.lookup call) c := by
    refine Reaches.step (e := .call call) ?_
    have hstep : s.step E offlineMode keep (.call call) = s.goto (.lookup call) := if_pos h.pc
    rw [hstep]
    exact ⟨rfl, h.dir, h.file, h.cachedFiles⟩
  refine (hcall.bind fun s h => checkCached_reaches h hcheck).bind fun s h => ?_
  have hfile := h.file call.filename
  split at hdown
  · rename_i d hd
    cases hdown
    rw [hd] at hfile
    exact h.jump (by simp [UnpackCache.next, h.pc, hfile])
  · rename_i hnone
    exact downloadMissing_reaches h hnone hdown

/-- The same, up to the next call. -/
theorem downloadPayloadFile_idle {source : PayloadSource} {filename : Bytes} {hash : Option SfmfFileHash} {z : Bool}
    {file : Option Bytes} (h : Represents .idle s c)
    (hdown : downloadPayloadFile E source offlineMode filename hash z c = .ok (file, c')) :
    Reaches E offlineMode keep s .idle c' := by
  have hreturned : Reaches E offlineMode keep s (.returned file) c' := by
    let call : DownloadCall := ⟨filename, hash, z⟩
    have hcall : downloadPayloadFile E source offlineMode call.filename call.expectedHash call.isCompressed c =
        .ok (file, c') := hdown
    exact downloadPayloadFile_reaches h hcall
  exact hreturned.bind fun s h => h.jump (by simp only [UnpackCache.next, h.pc])

/-- **The calls of a run of the unpacker are such a run**: that for the manifest, and those of
`unpack_download_requirements`. -/
theorem unpackDownload_reaches {U : UnpackOptions} {cl : Classified} {files : CacheFiles}
    (hc : unpackClassify E U (fun name => files.lookup name) = .ok cl) (hd : unpackDownload E U cl = .ok c) :
    Reaches E U.offlineMode keep (persistent files) .idle c := by
  simp only [unpackClassify, bind_ok] at hc
  obtain ⟨⟨file, c₁⟩, hmanifest, _, _, hc⟩ := hc
  have hstart : Represents .idle (persistent files) ⟨fun name => files.lookup name, [], []⟩ :=
    ⟨rfl, Option.some_ne_none _, fun _ => rfl, rfl⟩
  have hfirst : Reaches E U.offlineMode keep (persistent files) .idle c₁ := downloadPayloadFile_idle hstart hmanifest
  have hstate : cl.state = c₁ := by
    split at hc
    · cases hc
    · simp only [bind_ok, pure_eq_ok, Except.ok.injEq] at hc
      obtain ⟨_, _, _, _, _, _, _, _, rfl⟩ := hc
      rfl
  unfold unpackDownload at hd
  split at hd
  · cases hd
    rw [hstate]
    exact hfirst
  rw [hstate] at hd
  -- each requirement is a call of `download_payload_file`
  refine foldlM_inv (fun c => Reaches E U.offlineMode keep (persistent files) .idle c) (fun c u c' _ hreach hu => ?_)
    hfirst hd
  refine hreach.bind fun s h => ?_
  unfold unpackDownloadRequirements at hu
  split at hu
  · split at hu
    · simp only [bind_ok] at hu
      obtain ⟨name, _, ⟨file, c₂⟩, hdown, _, _, hu⟩ := hu
      cases hu
      exact downloadPayloadFile_idle h hdown
    · simp only [bind_ok] at hu
      obtain ⟨name, _, ⟨file, c₂⟩, hdown, _, _, hu⟩ := hu
      cases hu
      exact downloadPayloadFile_idle h hdown
    · cases hu
      exact h.reaches
  · cases hu
    exact h.reaches

end UnpackCache

/-- **After a run that succeeds on a new temporary directory**, each file of the cache is listed. -/
theorem unpackMain_listed {Loc : Type} [DecidableEq Loc] {N : Naming Loc} {fs : FS Loc} {U : UnpackOptions}
    {r : Unpacked Loc} (h : unpackMain E N U (fun _ => none) fs = .ok r) {name : Bytes}
    (hname : r.state.cache name ≠ none) : name ∈ r.state.cachedFiles := by
  simp only [unpackMain, bind_ok, pure_eq_ok, Except.ok.injEq] at h
  obtain ⟨c, hc, s, hs, fs', _, rfl⟩ := h
  have hreach : UnpackCache.Reaches E U.offlineMode false (UnpackCache.persistent []) .idle s :=
    UnpackCache.unpackDownload_reaches hc hs
  obtain ⟨es, hes⟩ : UnpackCache.Reaches E U.offlineMode false UnpackCache.fresh .idle s := hreach
  have htracked := UnpackCache.tracked_run (E := E) U.offlineMode es es.length
  rw [stateAt, List.take_length] at htracked
  have hlisted := htracked.listed_at hes.pc rfl name (by rw [hes.file]; exact hname)
  rw [hes.cachedFiles] at hlisted
  exact hlisted

end Sfmf

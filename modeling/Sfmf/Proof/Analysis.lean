import Sfmf.Proof.Cutoff
import Sfmf.Proof.Symlinks

/-!
# The analysis of a tree

Between the list of the files and the first write, `main` marks the duplicates, searches for the
cut-off and sorts the files into buckets. Assertions of the first two can fail.

* `markDuplicates_ok_iff`: marking returns exactly when no symlink is a hard link of an earlier
  entry of its content.
* `smallest_lt_largest_iff`: there is a range to search exactly when the entries are not all of
  one size.
* `PackFilesOk.analysed`, `analyse_returned`: a successful run has analysed its files, which says both of them.
* `analyse_ok_iff`: the analysis of a tree returns exactly when both is so.
-/

namespace Sfmf

variable {files : List FileEntry}

/-- What `main` does between the list of the files and the first pack. -/
def analyse (files : List FileEntry) (blobUpperBytes packUpperBytes : UInt32) :
    Exec (List FileEntry × BucketizeContext) := do
  let files ← markDuplicates files
  let cutoff ← getCutoffSizeBytes files blobUpperBytes
  return (files, bucketizeFileList files cutoff packUpperBytes)

/-- A successful run has started with it. -/
theorem PackFilesOk.analysed {E : Env} {D : Disk} {opts : PackOptions} {outDir : Dir} {cutoff : UInt32}
    {blobs packs : List (Bytes × Bytes)} {P : Packed} (h : PackFilesOk E D opts outDir files cutoff blobs packs P) :
    analyse files (opts.blobUpperKb * 1024) (opts.packUpperKb * 1024) = .ok (P.files, P.buckets) := by
  rw [analyse, h.marked, ok_bind, h.search, ok_bind, h.buckets]
  rfl

/-! ## Marking -/

/-- What `k` rounds have found of the `i`-th file: if an earlier name of it was compared, it is a regular file. -/
structure Compared (files : List FileEntry) (k i : ℕ) (f f' : FileEntry) : Prop where
  same : SameFile f f'
  regular : ∀ j < k, j < i → ∀ g, files[j]? = some g → LinkOf g f → sIsreg f.st.stMode

theorem Compared.step {k i : ℕ} {f f' f'' a a' : FileEntry} (h : Compared files k i f f') (ha : files[k]? = some a)
    (haa : SameFile a a')
    (hstep : (f'' = f' ∧ (i ≤ k ∨ skipsDuplicates a')) ∨ (k < i ∧ Stored a' ∧ markDuplicateOf k a' f' = .ok f'')) :
    Compared files (k + 1) i f f'' := by
  obtain ⟨⟨d, n, rfl⟩, hreg⟩ := h
  obtain ⟨_, _, rfl⟩ := haa
  -- only the comparison with the `k`-th file is new
  have hnew : (k < i → LinkOf a f → sIsreg f.st.stMode) →
      ∀ j < k + 1, j < i → ∀ g, files[j]? = some g → LinkOf g f → sIsreg f.st.stMode := by
    intro hk j hj hji g hg hlink
    rcases Nat.lt_succ_iff_lt_or_eq.1 hj with hj | rfl
    · exact hreg j hj hji g hg hlink
    · rw [ha, Option.some.injEq] at hg
      subst hg
      exact hk hji hlink
  rcases hstep with ⟨rfl, hno⟩ | ⟨_, _, hmark⟩
  · exact ⟨⟨d, n, rfl⟩, hnew fun hki hlink => absurd (hno.resolve_left (by omega)) hlink.1⟩
  rcases markDuplicateOf_ok hmark with ⟨rfl, hno⟩ | ⟨_, _, ⟨rfl, hne⟩ | ⟨rfl, _, hreg⟩⟩
  · exact ⟨⟨d, n, rfl⟩, hnew fun _ hlink => absurd ⟨hlink.2.1, hlink.2.2.1⟩ hno⟩
  · exact ⟨⟨true, n, rfl⟩, hnew fun _ hlink => absurd hlink.2.2.2 hne⟩
  · exact ⟨⟨true, k, rfl⟩, hnew fun _ _ => hreg⟩

/-- Where marking returns, no symlink was a hard link. -/
theorem markDuplicates_noLinkedSymlinks {files' : List FileEntry} (h : markDuplicates files = .ok files') :
    NoLinkedSymlinks files := by
  obtain ⟨hlen, hback⟩ := markDuplicates_rounds (I := Compared files) h (fun _ _ _ _ hI => hI.same)
    (fun i f _ => ⟨SameFile.refl f, fun j hj => absurd hj (Nat.not_lt_zero j)⟩)
    (fun _ _ _ _ _ _ _ hI ha hsame hcase => hI.step ha hsame hcase)
  intro i j f g hij hf hg hsf hsg hlnk hhash hino
  have hj : j < files'.length := hlen ▸ (List.getElem?_eq_some_iff.1 hg).1
  obtain ⟨g', hg', hcompared⟩ := hback j files'[j] (List.getElem?_eq_getElem hj)
  rw [hg, Option.some.injEq] at hg'
  subst hg'
  have hi : i < files.length := (List.getElem?_eq_some_iff.1 hf).1
  exact sIslnk_not_sIsreg hlnk (hcompared.regular i hi hij f hf ⟨hsf, hsg, hhash, hino⟩)

/-- **Marking returns** exactly when no symlink is a hard link of an earlier entry of its content. -/
theorem markDuplicates_same {files files' : List FileEntry} (h : markDuplicates files = .ok files') :
    List.Forall₂ SameFile files files' := by
  obtain ⟨hlen, hback⟩ := markDuplicates_rounds (I := Compared files) h (fun _ _ _ _ hI => hI.same)
    (fun i f _ => ⟨SameFile.refl f, fun j hj => absurd hj (Nat.not_lt_zero j)⟩)
    (fun _ _ _ _ _ _ _ hI ha hsame hcase => hI.step ha hsame hcase)
  refine List.forall₂_iff_get.2 ⟨hlen.symm, fun i hi hi' => ?_⟩
  obtain ⟨f, hf, hcompared⟩ := hback i files'[i] (List.getElem?_eq_getElem hi')
  rw [List.getElem?_eq_getElem hi, Option.some.injEq] at hf
  subst hf
  exact hcompared.same

theorem markDuplicates_ok_iff (hhash : Hashed files) :
    (∃ files', markDuplicates files = .ok files') ↔ NoLinkedSymlinks files :=
  ⟨fun ⟨_, h⟩ => markDuplicates_noLinkedSymlinks h, fun h => markDuplicates_total h hhash⟩

/-- The list of a tree has its hashes. -/
theorem listed_hashed {E : Env} {D : SourceTree} (h : ∀ f ∈ files, Listed E D f ∧ Fresh f) : Hashed files := by
  intro f hf hs
  obtain ⟨d, _, _, hhash⟩ := (h f hf).1.stored hs
  rw [hhash]
  rfl

/-! ## The range of sizes -/

theorem le_foldl_min {α : Type} (g : α → ℕ) (l : List α) (b m : ℕ) :
    b ≤ l.foldl (fun m a => min m (g a)) m ↔ b ≤ m ∧ ∀ a ∈ l, b ≤ g a := by
  induction l generalizing m with
  | nil => simp
  | cons a l ih => rw [List.foldl_cons, ih, le_min_iff, List.forall_mem_cons, and_assoc]

theorem foldl_max_le {α : Type} (g : α → ℕ) (l : List α) (b m : ℕ) :
    l.foldl (fun m a => max m (g a)) m ≤ b ↔ m ≤ b ∧ ∀ a ∈ l, g a ≤ b := by
  induction l generalizing m with
  | nil => simp
  | cons a l ih => rw [List.foldl_cons, ih, max_le_iff, List.forall_mem_cons, and_assoc]

/-- The entries are all of one size, and those that were compressed are as well. -/
def AllOfOneSize (files : List FileEntry) : Prop :=
  ∃ size, ∀ f ∈ files, f.st.stSize = size ∧ (f.zsize.toNat = 0 ∨ f.zsize.toNat = size)

/-- **There is a range of sizes to search** exactly when the entries are not all of one size. -/
theorem smallest_lt_largest_iff (hne : files ≠ []) (hs : ∀ f ∈ files, f.st.stSize < 2 ^ 32) :
    smallestSize files < largestSize files ↔ ¬ AllOfOneSize files := by
  have hempty : largestSize files ≤ smallestSize files ↔
      ∀ f ∈ files, ∀ g ∈ files, max f.st.stSize f.zsize.toNat ≤ minSize g := by
    unfold largestSize smallestSize
    rw [foldl_max_le]
    simp only [le_foldl_min, Nat.zero_le, implies_true, true_and]
    refine ⟨fun h f hf => (h f hf).2, fun h f hf => ⟨?_, h f hf⟩⟩
    have := hs f hf
    have := f.zsize.toNat_lt
    omega
  rw [← not_le, not_iff_not, hempty]
  constructor
  · intro h
    obtain ⟨f₀, rest, rfl⟩ := List.exists_cons_of_ne_nil hne
    refine ⟨minSize f₀, fun f hf => ?_⟩
    have hf₀ : f₀ ∈ f₀ :: rest := List.mem_cons_self
    -- every size is between the smaller and the larger size of one entry
    have h₀ := h f₀ hf₀ f hf
    have h₁ := h f hf f₀ hf₀
    have hmin := minSize_eq (hs f hf)
    have hmin₀ := minSize_eq (hs f₀ hf₀)
    split at hmin <;> split at hmin₀ <;> omega
  · rintro ⟨size, hall⟩ f hf g hg
    have hf' := hall f hf
    have hg' := hall g hg
    rw [minSize_eq (hs g hg)]
    split <;> omega

/-! ## The analysis -/

/-- An empty range fails the first assertion of the search. -/
theorem getCutoffSizeBytes_ok_iff (hs : ∀ f ∈ files, f.st.stSize < 2 ^ 32) (upper : UInt32) :
    (∃ cutoff, getCutoffSizeBytes files upper = .ok cutoff) ↔ smallestSize files < largestSize files := by
  constructor
  · rintro ⟨cutoff, h⟩
    simp only [getCutoffSizeBytes, bind_ok, cAssert_ok, exists_const] at h
    have hrange := UInt32.lt_iff_toNat_lt.1 h.1
    rwa [getCutoffMinSize_foldl, getCutoffMaxSize_foldl hs] at hrange
  · exact fun hlt => ⟨_, getCutoffSizeBytes_eq hs hlt upper⟩

/-- Where the analysis has returned. -/
theorem analyse_returned (hne : files ≠ []) (hs : ∀ f ∈ files, f.st.stSize < 2 ^ 32) {blobUpperBytes packUpperBytes : UInt32}
    {r : List FileEntry × BucketizeContext} (h : analyse files blobUpperBytes packUpperBytes = .ok r) :
    NoLinkedSymlinks files ∧ ¬ AllOfOneSize files := by
  obtain ⟨files', hmark, h⟩ := bind_ok.1 h
  obtain ⟨cutoff, hcutoff, _⟩ := bind_ok.1 h
  -- the search does not depend on the marks
  rw [← getCutoffSizeBytes_same (markDuplicates_same hmark)] at hcutoff
  exact ⟨markDuplicates_noLinkedSymlinks hmark,
    (smallest_lt_largest_iff hne hs).1 ((getCutoffSizeBytes_ok_iff hs _).1 ⟨cutoff, hcutoff⟩)⟩

/-- **The analysis of a tree returns** exactly when no symlink is a hard link of an earlier entry of its content, and
the entries are not all of one size. -/
theorem analyse_ok_iff {E : Env} {D : SourceTree} {walk : List CString}
    (h : getFileList E D.toDisk walk = .ok files) (hne : files ≠ []) (hs : ∀ f ∈ files, f.st.stSize < 2 ^ 32)
    (blobUpperBytes packUpperBytes : UInt32) :
    (∃ r, analyse files blobUpperBytes packUpperBytes = .ok r) ↔ NoLinkedSymlinks files ∧ ¬ AllOfOneSize files := by
  refine ⟨fun ⟨_, hr⟩ => analyse_returned hne hs hr, fun ⟨hlinks, hsizes⟩ => ?_⟩
  obtain ⟨files', hmark⟩ := (markDuplicates_ok_iff (listed_hashed (getFileList_ok h).1)).2 hlinks
  obtain ⟨cutoff, hcutoff⟩ :=
    (getCutoffSizeBytes_ok_iff hs blobUpperBytes).2 ((smallest_lt_largest_iff hne hs).2 hsizes)
  rw [getCutoffSizeBytes_same (markDuplicates_same hmark)] at hcutoff
  refine ⟨(files', bucketizeFileList files' cutoff packUpperBytes), ?_⟩
  rw [analyse, hmark, ok_bind, hcutoff, ok_bind]
  rfl

/-- `d/m`. -/
def letterLinkName : CString := ⟨str ['d', '/', 'm'], by decide⟩

/-- A directory with a symlink that has two names. -/
def twoNamesTree : SourceTree :=
  .ofList [
    (letterDir, ⟨1, 0o040755, 0, 0, 0, 64, 7⟩, []),
    (letterLink, ⟨5, 0o120777, 0, 0, 0, 1, 7⟩, [0x61]),
    (letterLinkName, ⟨5, 0o120777, 0, 0, 0, 1, 7⟩, [0x61])] (by decide) (by decide)

/-- With one of the names, the analysis returns. -/
theorem analyse_ok_letterLink :
    ∃ files, getFileList letterTreeEnv twoNamesTree.toDisk [letterDir, letterLink] = .ok files ∧
      ∃ r, analyse files 8192 65536 = .ok r := by
  have hlist : ∃ files, getFileList letterTreeEnv twoNamesTree.toDisk [letterDir, letterLink] = .ok files ∧
      files ≠ [] ∧ (∀ f ∈ files, f.st.stSize < 2 ^ 32) ∧ (files.Pairwise fun f g => Stored f → Stored g →
        sIslnk g.st.stMode → f.hash = g.hash → f.st.stIno ≠ g.st.stIno) ∧ smallestSize files < largestSize files := by
    refine ⟨_, rfl, ?_, ?_, ?_, ?_⟩
    all_goals decide +kernel
  obtain ⟨files, hfiles, hne, hs, hlinks, hlt⟩ := hlist
  have hsizes := (smallest_lt_largest_iff hne hs).1 hlt
  exact ⟨files, hfiles, (analyse_ok_iff hfiles hne hs 8192 65536).2 ⟨noLinkedSymlinks_of_pairwise hlinks, hsizes⟩⟩

/-- **Trees whose analysis aborts**: a symlink with two names, and a directory alone. -/
theorem analyse_aborts :
    (∃ files, getFileList letterTreeEnv twoNamesTree.toDisk [letterDir, letterLink, letterLinkName] = .ok files ∧
      files ≠ [] ∧ (∀ f ∈ files, f.st.stSize < 2 ^ 31) ∧
      analyse files 8192 65536 = .error (.assertion "S_ISREG(b->st.st_mode)")) ∧
    ∃ files, getFileList letterTreeEnv letterTree.toDisk [letterDir] = .ok files ∧
      files ≠ [] ∧ (∀ f ∈ files, f.st.stSize < 2 ^ 31) ∧
      analyse files 8192 65536 = .error (.assertion "min_size < max_size") := by
  refine ⟨⟨_, rfl, ?_, ?_, ?_⟩, _, rfl, ?_, ?_, ?_⟩
  all_goals decide +kernel

end Sfmf

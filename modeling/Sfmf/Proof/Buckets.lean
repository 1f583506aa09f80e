import Sfmf.Proof.FileEntry

/-!
# Duplicates, buckets and packs

* `markDuplicates_rounds`: what each comparison keeps is kept by `mark_duplicates`.
* `markDuplicates_ok`: what is marked in a list of files.
* `markDuplicates_links`: which references to other files are marked.
* `bucketizeFileList_eq`: each bucket has the entries that belong to it, in order.
* `makePacks_perm`: the packs have the packed files, each in one pack.
* `cutoffSearch_rounds`: the search for the cut-off has enough rounds.
-/

namespace Sfmf

/-! ## Duplicates -/

/-- The same file: only the marks may differ. -/
def SameFile (f f' : FileEntry) : Prop := ∃ d k, f' = { f with duplicate := d, hardlinkIndex := k }

theorem SameFile.refl (f : FileEntry) : SameFile f f := ⟨f.duplicate, f.hardlinkIndex, rfl⟩

theorem SameFile.trans {f f' f'' : FileEntry} (h : SameFile f f') (h' : SameFile f' f'') : SameFile f f'' := by
  obtain ⟨_, _, rfl⟩ := h
  obtain ⟨d, k, rfl⟩ := h'
  exact ⟨d, k, rfl⟩

/-- An entry whose content is stored somewhere. -/
abbrev Stored (f : FileEntry) : Prop := ¬ skipsDuplicates f

/-- The comparison of two entries. -/
theorem markDuplicateOf_ok {i : ℕ} {a b b' : FileEntry} (h : markDuplicateOf i a b = .ok b') :
    (b' = b ∧ ¬ (Stored b ∧ a.hash = b.hash)) ∨
      (Stored b ∧ a.hash = b.hash ∧ ((b' = { b with duplicate := true } ∧ a.st.stIno ≠ b.st.stIno) ∨
        (b' = { b with duplicate := true, hardlinkIndex := i } ∧ a.st.stIno = b.st.stIno ∧
          sIsreg b.st.stMode))) := by
  unfold markDuplicateOf at h
  by_cases hskip : skipsDuplicates b
  · rw [if_pos hskip] at h
    cases h
    exact .inl ⟨rfl, fun hs => hs.1 hskip⟩
  rw [if_neg hskip] at h
  simp only [bind_ok] at h
  obtain ⟨same, hsame, h⟩ := h
  obtain ⟨_, _, rfl⟩ := sfmfFilehashCompare_ok.1 hsame
  by_cases hhash : a.hash = b.hash
  · rw [decide_eq_true hhash, if_pos rfl] at h
    by_cases hino : a.st.stIno = b.st.stIno
    · simp only [hino, if_true, bind_ok, cAssert_ok, exists_const, pure_eq_ok, Except.ok.injEq] at h
      exact .inr ⟨hskip, hhash, .inr ⟨h.2.symm, hino, h.1⟩⟩
    · simp only [hino, if_false, pure_eq_ok, Except.ok.injEq] at h
      exact .inr ⟨hskip, hhash, .inl ⟨h.symm, hino⟩⟩
  · rw [decide_eq_false hhash] at h
    cases h
    exact .inl ⟨rfl, fun hs => hhash hs.2⟩

/-- One round of the outer loop: the entries behind the `k`-th are compared with it. -/
theorem markDuplicatesFrom_ok {files files' : List FileEntry} {k : ℕ} {a : FileEntry} (ha : files[k]? = some a)
    (h : markDuplicatesFrom files k = .ok files') :
    files'.length = files.length ∧ ∀ (i : ℕ) (b : FileEntry), files[i]? = some b → ∃ b', files'[i]? = some b' ∧
      ((b' = b ∧ (i ≤ k ∨ skipsDuplicates a)) ∨ (k < i ∧ Stored a ∧ markDuplicateOf k a b = .ok b')) := by
  unfold markDuplicatesFrom at h
  simp only [ha] at h
  by_cases hskip : skipsDuplicates a
  · rw [if_pos hskip] at h
    cases h
    exact ⟨rfl, fun i b hb => ⟨b, hb, .inl ⟨rfl, .inr hskip⟩⟩⟩
  rw [if_neg hskip] at h
  simp only [bind_ok, pure_eq_ok, Except.ok.injEq] at h
  obtain ⟨later, hlater, rfl⟩ := h
  have hlater := mapM_ok.1 hlater
  have hk : k < files.length := (List.getElem?_eq_some_iff.1 ha).1
  have htake : (files.take (k + 1)).length = k + 1 := by rw [List.length_take]; omega
  have hlen : later.length = files.length - (k + 1) := by rw [← hlater.length_eq, List.length_drop]
  refine ⟨by rw [List.length_append, htake, hlen]; omega, fun i b hb => ?_⟩
  have hi : i < files.length := (List.getElem?_eq_some_iff.1 hb).1
  by_cases hik : i ≤ k
  · refine ⟨b, ?_, .inl ⟨rfl, .inl hik⟩⟩
    rw [List.getElem?_append_left (by omega), List.getElem?_take_of_lt (by omega), hb]
  · have hj : i - (k + 1) < (files.drop (k + 1)).length := by rw [List.length_drop]; omega
    have hj' : i - (k + 1) < later.length := by omega
    refine ⟨later[i - (k + 1)], ?_, .inr ⟨by omega, hskip, ?_⟩⟩
    · rw [List.getElem?_append_right (by omega), htake, List.getElem?_eq_getElem hj']
    · have hget := hlater.get hj hj'
      have hb' : (files.drop (k + 1))[i - (k + 1)] = b := by
        rw [List.getElem_drop]
        have : k + 1 + (i - (k + 1)) = i := by omega
        simp only [this]
        exact (List.getElem?_eq_some_iff.1 hb).2
      simpa only [List.get_eq_getElem, hb'] using hget

/-- What is marked of the `i`-th file after `k` rounds: whether one of the first `k` files has the same
hash, and the last of them that is the same inode. -/
structure Marked (files : List FileEntry) (k i : ℕ) (f f' : FileEntry) : Prop where
  same : SameFile f f'
  duplicate : f'.duplicate = true ↔
    ∃ j < k, j < i ∧ ∃ g, files[j]? = some g ∧ Stored g ∧ Stored f ∧ g.hash = f.hash
  hardlink : f'.hardlinkIndex = -1 ∨ ∃ j < k, j < i ∧ f'.hardlinkIndex = j ∧ ∃ g, files[j]? = some g ∧ Stored g ∧
    Stored f ∧ g.hash = f.hash ∧ g.st.stIno = f.st.stIno ∧ sIsreg f.st.stMode

/-- A round keeps what was marked, and adds what the comparison with the `k`-th file finds. -/
theorem Marked.step {files : List FileEntry} {k i : ℕ} {f f' f'' a a' : FileEntry} (h : Marked files k i f f')
    (ha : files[k]? = some a) (haa : SameFile a a')
    (hstep : (f'' = f' ∧ (i ≤ k ∨ skipsDuplicates a')) ∨ (k < i ∧ Stored a' ∧ markDuplicateOf k a' f' = .ok f'')) :
    Marked files (k + 1) i f f'' := by
  obtain ⟨hsame, hdup, hlink⟩ := h
  obtain ⟨_, _, rfl⟩ := haa
  -- which new index the `k`-th file is
  have hgrow : (∃ j < k, j < i ∧ ∃ g, files[j]? = some g ∧ Stored g ∧ Stored f ∧ g.hash = f.hash) →
      ∃ j < k + 1, j < i ∧ ∃ g, files[j]? = some g ∧ Stored g ∧ Stored f ∧ g.hash = f.hash :=
    fun ⟨j, hj, h⟩ => ⟨j, by omega, h⟩
  have hkeep : f'.hardlinkIndex = -1 ∨ ∃ j < k + 1, j < i ∧ f'.hardlinkIndex = j ∧ ∃ g, files[j]? = some g ∧ Stored g ∧
      Stored f ∧ g.hash = f.hash ∧ g.st.stIno = f.st.stIno ∧ sIsreg f.st.stMode :=
    hlink.imp_right fun ⟨j, hj, h⟩ => ⟨j, by omega, h⟩
  have hnew : (¬ (k < i ∧ Stored a ∧ Stored f ∧ a.hash = f.hash)) →
      ((∃ j < k + 1, j < i ∧ ∃ g, files[j]? = some g ∧ Stored g ∧ Stored f ∧ g.hash = f.hash) ↔
        ∃ j < k, j < i ∧ ∃ g, files[j]? = some g ∧ Stored g ∧ Stored f ∧ g.hash = f.hash) := by
    refine fun hno => ⟨fun ⟨j, hj, hji, g, hg, hsg, hsf, hh⟩ => ?_, hgrow⟩
    refine ⟨j, ?_, hji, g, hg, hsg, hsf, hh⟩
    by_contra hjk
    have hjk : j = k := by omega
    subst hjk
    rw [ha] at hg
    cases hg
    exact hno ⟨hji, hsg, hsf, hh⟩
  rcases hstep with ⟨rfl, hcase⟩ | ⟨hki, hsa, hmark⟩
  · refine ⟨hsame, hdup.trans (hnew ?_).symm, hkeep⟩
    rintro ⟨hki, hsa, _⟩
    exact hcase.elim (fun h => by omega) hsa
  obtain ⟨d, n, rfl⟩ := hsame
  rcases markDuplicateOf_ok hmark with ⟨rfl, hno⟩ | ⟨hsf, hh, hcase⟩
  · exact ⟨⟨d, n, rfl⟩, hdup.trans (hnew fun h => hno h.2.2).symm, hkeep⟩
  · have hwit : ∃ j < k + 1, j < i ∧ ∃ g, files[j]? = some g ∧ Stored g ∧ Stored f ∧ g.hash = f.hash :=
      ⟨k, by omega, hki, a, ha, hsa, hsf, hh⟩
    rcases hcase with ⟨rfl, _⟩ | ⟨rfl, hino, hreg⟩
    · exact ⟨⟨true, n, rfl⟩, ⟨fun _ => hwit, fun _ => rfl⟩, hkeep⟩
    · exact ⟨⟨true, k, rfl⟩, ⟨fun _ => hwit, fun _ => rfl⟩,
        .inr ⟨k, by omega, hki, rfl, a, ha, hsa, hsf, hh, hino, hreg⟩⟩

/-- **A list whose duplicates are marked**: an entry is one if an earlier entry has its hash, and a hard
link refers to such an entry with the same inode. -/
structure Deduplicated (files : List FileEntry) : Prop where
  duplicate : ∀ (i : ℕ) (f : FileEntry), files[i]? = some f → (f.duplicate = true ↔
    ∃ j < i, ∃ g, files[j]? = some g ∧ Stored g ∧ Stored f ∧ g.hash = f.hash)
  hardlink : ∀ (i : ℕ) (f : FileEntry), files[i]? = some f → f.hardlinkIndex = -1 ∨
    ∃ j < i, f.hardlinkIndex = j ∧ ∃ g, files[j]? = some g ∧ Stored g ∧ Stored f ∧ g.hash = f.hash ∧
      g.st.stIno = f.st.stIno ∧ sIsreg f.st.stMode

/-- What is known of each file after `k` rounds, if the comparisons keep it: `I k i f f'` is about the
`i`-th file, which was `f` and is `f'`. -/
theorem markDuplicates_rounds {files files' : List FileEntry} {I : ℕ → ℕ → FileEntry → FileEntry → Prop}
    (h : markDuplicates files = .ok files') (hsame : ∀ k i f f', I k i f f' → SameFile f f')
    (hinit : ∀ i f, files[i]? = some f → I 0 i f f)
    (hstep : ∀ k i f f' f'' a a', I k i f f' → files[k]? = some a → SameFile a a' →
      ((f'' = f' ∧ (i ≤ k ∨ skipsDuplicates a')) ∨ (k < i ∧ Stored a' ∧ markDuplicateOf k a' f' = .ok f'')) →
      I (k + 1) i f f'') :
    files'.length = files.length ∧ ∀ (i : ℕ) (f' : FileEntry), files'[i]? = some f' → ∃ f, files[i]? = some f ∧
      I files.length i f f' := by
  have hrun : files'.length = files.length ∧ ∀ (i : ℕ) (f : FileEntry), files[i]? = some f →
      ∃ f', files'[i]? = some f' ∧ I files.length i f f' := by
    refine foldlM_range_inv (fun k cur => cur.length = files.length ∧ ∀ (i : ℕ) (f : FileEntry), files[i]? = some f →
      ∃ f', cur[i]? = some f' ∧ I k i f f') ?_ ?_ h
    · intro k cur cur' hk ⟨hlen, hmarked⟩ hround
      have ha : files[k]? = some files[k] := List.getElem?_eq_getElem hk
      obtain ⟨a', ha', hIa⟩ := hmarked k files[k] ha
      obtain ⟨hlen', hround⟩ := markDuplicatesFrom_ok ha' hround
      refine ⟨hlen'.trans hlen, fun i f hf => ?_⟩
      obtain ⟨f', hf', hIf⟩ := hmarked i f hf
      obtain ⟨f'', hf'', hcase⟩ := hround i f' hf'
      exact ⟨f'', hf'', hstep k i f f' f'' _ a' hIf ha (hsame k k _ a' hIa) hcase⟩
    · exact ⟨rfl, fun i f hf => ⟨f, hf, hinit i f hf⟩⟩
  obtain ⟨hlen, hmarked⟩ := hrun
  refine ⟨hlen, fun i f' hf' => ?_⟩
  have hi : i < files.length := hlen ▸ (List.getElem?_eq_some_iff.1 hf').1
  obtain ⟨f'', hf'', hI⟩ := hmarked i files[i] (List.getElem?_eq_getElem hi)
  rw [hf'] at hf''
  cases hf''
  exact ⟨files[i], List.getElem?_eq_getElem hi, hI⟩

/-- **What `mark_duplicates` marks.** -/
theorem markDuplicates_ok {files files' : List FileEntry} (h : markDuplicates files = .ok files')
    (hfresh : ∀ f ∈ files, Fresh f) : List.Forall₂ SameFile files files' ∧ Deduplicated files' := by
  -- what was known of the first list is known of the marked one
  obtain ⟨hlen, hback⟩ := markDuplicates_rounds (I := Marked files) h (fun _ _ _ _ hm => hm.same)
    (fun i f hf => ⟨SameFile.refl f, by simp [(hfresh f (List.mem_of_getElem? hf)).1],
      .inl (hfresh f (List.mem_of_getElem? hf)).2⟩)
    (fun _ _ _ _ _ _ _ hm ha hsame hcase => hm.step ha hsame hcase)
  have hmarked : ∀ (j : ℕ) (g : FileEntry), files[j]? = some g → ∃ g', files'[j]? = some g' ∧ SameFile g g' := by
    intro j g hg
    have hj : j < files'.length := hlen ▸ (List.getElem?_eq_some_iff.1 hg).1
    obtain ⟨g₁, hg₁, hm⟩ := hback j files'[j] (List.getElem?_eq_getElem hj)
    rw [hg] at hg₁
    cases hg₁
    exact ⟨files'[j], List.getElem?_eq_getElem hj, hm.same⟩
  refine ⟨List.forall₂_iff_get.2 ⟨hlen.symm, fun i hi hi' => ?_⟩, ⟨fun i f' hf' => ?_, fun i f' hf' => ?_⟩⟩
  · obtain ⟨f, hf, hm⟩ := hback i files'[i] (List.getElem?_eq_getElem hi')
    rw [List.getElem?_eq_getElem hi] at hf
    cases hf
    exact hm.same
  · obtain ⟨f, hf, hm⟩ := hback i f' hf'
    obtain ⟨_, _, rfl⟩ := hm.same
    rw [hm.duplicate]
    constructor
    · rintro ⟨j, _, hji, g, hg, h⟩
      obtain ⟨g', hg', _, _, rfl⟩ := hmarked j g hg
      exact ⟨j, hji, _, hg', h⟩
    · rintro ⟨j, hji, g', hg', h⟩
      obtain ⟨g, hg, hmg⟩ := hback j g' hg'
      obtain ⟨_, _, rfl⟩ := hmg.same
      exact ⟨j, (List.getElem?_eq_some_iff.1 hg).1, hji, g, hg, h⟩
  · obtain ⟨f, hf, hm⟩ := hback i f' hf'
    refine hm.hardlink.imp_right ?_
    rintro ⟨j, _, hji, hidx, g, hg, h⟩
    obtain ⟨g', hg', _, _, rfl⟩ := hmarked j g hg
    obtain ⟨_, _, rfl⟩ := hm.same
    exact ⟨j, hji, hidx, _, hg', h⟩

/-! ## References -/

/-- What `mark_duplicates` takes for one file under two names: the content and the inode number are the
same. -/
def LinkOf (g f : FileEntry) : Prop := Stored g ∧ Stored f ∧ g.hash = f.hash ∧ g.st.stIno = f.st.stIno

/-- **The reference `n` of the `i`-th file** after `k` rounds: the last of the first `k` files that is in
front of it and is the same file, or none. -/
structure LastLink (files : List FileEntry) (k i : ℕ) (f : FileEntry) (n : ℤ) : Prop where
  none : n = -1 → ∀ j < k, j < i → ∀ g, files[j]? = some g → ¬ LinkOf g f
  some : n ≠ -1 → ∃ j < k, j < i ∧ n = j ∧ (∃ g, files[j]? = some g ∧ LinkOf g f) ∧ sIsreg f.st.stMode ∧
    ∀ l < k, j < l → l < i → ∀ g, files[l]? = some g → ¬ LinkOf g f

/-- A round that finds no new reference. -/
theorem LastLink.keep {files : List FileEntry} {k i : ℕ} {f a : FileEntry} {n : ℤ} (h : LastLink files k i f n)
    (ha : files[k]? = .some a) (hno : ¬ (k < i ∧ LinkOf a f)) : LastLink files (k + 1) i f n := by
  have hlast : ∀ j < k + 1, ¬ j < k → j < i → ∀ g, files[j]? = .some g → ¬ LinkOf g f := by
    intro j hj hjk hji g hg hlink
    have hk : j = k := by omega
    subst hk
    rw [ha] at hg
    cases hg
    exact hno ⟨hji, hlink⟩
  constructor
  · intro hn j hj hji g hg
    by_cases hjk : j < k
    · exact h.none hn j hjk hji g hg
    · exact hlast j hj hjk hji g hg
  · intro hn
    obtain ⟨j, hjk, hji, hnj, hlink, hreg, hafter⟩ := h.some hn
    refine ⟨j, by omega, hji, hnj, hlink, hreg, fun l hl hjl hli g hg => ?_⟩
    by_cases hlk : l < k
    · exact hafter l hlk hjl hli g hg
    · exact hlast l hl hlk hli g hg

/-- **Which references are marked**: of each file, the last one in front of it that is the same file. -/
theorem markDuplicates_links {files files' : List FileEntry} (h : markDuplicates files = .ok files')
    (hfresh : ∀ f ∈ files, Fresh f) : ∀ (i : ℕ) (f' : FileEntry), files'[i]? = some f' →
      LastLink files' i i f' f'.hardlinkIndex := by
  have hinit : ∀ (i : ℕ) (f : FileEntry), files[i]? = some f →
      SameFile f f ∧ LastLink files 0 i f f.hardlinkIndex := by
    intro i f hf
    refine ⟨SameFile.refl f, ⟨fun _ j hj => absurd hj (Nat.not_lt_zero j), fun hn => ?_⟩⟩
    exact absurd (hfresh f (List.mem_of_getElem? hf)).2 hn
  have hstep : ∀ (k i : ℕ) (f f' f'' a a' : FileEntry),
      (SameFile f f' ∧ LastLink files k i f f'.hardlinkIndex) → files[k]? = some a → SameFile a a' →
      ((f'' = f' ∧ (i ≤ k ∨ skipsDuplicates a')) ∨ (k < i ∧ Stored a' ∧ markDuplicateOf k a' f' = .ok f'')) →
      SameFile f f'' ∧ LastLink files (k + 1) i f f''.hardlinkIndex := by
    rintro k i f _ f'' a _ ⟨⟨d, n, rfl⟩, hlast⟩ ha ⟨_, _, rfl⟩ hcase
    rcases hcase with ⟨rfl, hskip⟩ | ⟨hki, hsa, hmark⟩
    · refine ⟨⟨d, n, rfl⟩, hlast.keep ha fun ⟨hki, hlink⟩ => ?_⟩
      exact hskip.elim (fun h => by omega) hlink.1
    rcases markDuplicateOf_ok hmark with ⟨rfl, hno⟩ | ⟨hsf, hh, ⟨rfl, hino⟩ | ⟨rfl, hino, hreg⟩⟩
    · exact ⟨⟨d, n, rfl⟩, hlast.keep ha fun ⟨_, hlink⟩ => hno ⟨hlink.2.1, hlink.2.2.1⟩⟩
    · exact ⟨⟨true, n, rfl⟩, hlast.keep ha fun ⟨_, hlink⟩ => hino hlink.2.2.2⟩
    · refine ⟨⟨true, k, rfl⟩, ⟨fun hn => ?_, fun _ => ?_⟩⟩
      · exact absurd hn (by simp)
      · exact ⟨k, by omega, hki, rfl, ⟨a, ha, hsa, hsf, hh, hino⟩, hreg, fun l hl hkl => by omega⟩
  obtain ⟨hlen, hback⟩ := markDuplicates_rounds h (fun _ _ _ _ hI => hI.1) hinit hstep
  intro i f' hf'
  obtain ⟨f, hf, ⟨d, n, rfl⟩, hlast⟩ := hback i f' hf'
  have hi : i < files.length := (List.getElem?_eq_some_iff.1 hf).1
  -- the marks of the other files do not matter
  have hto : ∀ (j : ℕ) (g' : FileEntry), files'[j]? = some g' → ∃ g, files[j]? = some g ∧ (LinkOf g f ↔ LinkOf g' f) := by
    intro j g' hg'
    obtain ⟨g, hg, ⟨_, _, rfl⟩, _⟩ := hback j g' hg'
    exact ⟨g, hg, Iff.rfl⟩
  constructor
  · intro hn j hj _ g' hg' hlink
    obtain ⟨g, hg, hiff⟩ := hto j g' hg'
    exact hlast.none hn j (hj.trans hi) hj g hg (hiff.2 hlink)
  · intro hn
    obtain ⟨j, _, hji, hnj, ⟨g, hg, hlink⟩, hreg, hafter⟩ := hlast.some hn
    have hj' : j < files'.length := by omega
    obtain ⟨g₁, hg₁, hiff⟩ := hto j files'[j] (List.getElem?_eq_getElem hj')
    rw [hg] at hg₁
    cases hg₁
    refine ⟨j, hji, hji, hnj, ⟨files'[j], List.getElem?_eq_getElem hj', hiff.1 hlink⟩, hreg,
      fun l hl hjl hli g' hg' hl' => ?_⟩
    obtain ⟨g₂, hg₂, hiff₂⟩ := hto l g' hg'
    exact hafter l (hl.trans hi) hjl hli g₂ hg₂ (hiff₂.2 hl')

/-- An entry whose content is stored under its own name. -/
def Kept (f : FileEntry) : Prop := Stored f ∧ f.duplicate = false

instance (f : FileEntry) : Decidable (Kept f) := by unfold Kept; infer_instance

/-- **Every hash that is stored is that of an entry that is kept.** -/
theorem Deduplicated.first {files : List FileEntry} (h : Deduplicated files) {i : ℕ} {f : FileEntry}
    (hf : files[i]? = some f) (hs : Stored f) :
    ∃ j ≤ i, ∃ g, files[j]? = some g ∧ Kept g ∧ g.hash = f.hash := by
  induction i using Nat.strongRecOn generalizing f with
  | ind i ih =>
    cases hd : f.duplicate with
    | false => exact ⟨i, le_rfl, f, hf, ⟨hs, hd⟩, rfl⟩
    | true =>
      obtain ⟨j, hji, g, hg, hsg, _, hh⟩ := (h.duplicate i f hf).1 hd
      obtain ⟨j', hj', g', hg', hk, hh'⟩ := ih j hji hg hsg
      exact ⟨j', by omega, g', hg', hk, hh'.trans hh⟩

/-- **The kept entries have distinct hashes.** -/
theorem Deduplicated.nodup {files : List FileEntry} (h : Deduplicated files) :
    ((files.filter (Kept ·)).map (·.hash)).Nodup := by
  rw [List.Nodup, List.pairwise_map, List.pairwise_filter, List.pairwise_iff_getElem]
  intro i j hi hj hij hki hkj he
  have hki := of_decide_eq_true hki
  have hkj := of_decide_eq_true hkj
  have hdup := (h.duplicate j files[j] (List.getElem?_eq_getElem hj)).2
    ⟨i, hij, files[i], List.getElem?_eq_getElem hi, hki.1, hkj.1, he⟩
  rw [hkj.2] at hdup
  cases hdup

/-! ## Buckets -/

/-- Where the content of an entry goes. -/
inductive Bucket where
  | included
  | packed
  | unpacked
  deriving DecidableEq, Repr

/-- The bucket of an entry, for a cut-off and an upper limit for packs. -/
def bucketOf (cutoff packUpper : UInt32) (f : FileEntry) : Option Bucket :=
  if f.duplicate ∨ (fileentryGetMinSize f).toUInt32 = 0 ∨ ¬ (sIslnk f.st.stMode ∨ sIsreg f.st.stMode) then none
  else if sIslnk f.st.stMode ∨ (fileentryGetMinSize f).toUInt32 < cutoff then some .included
  else if (fileentryGetMinSize f).toUInt32 < packUpper then some .packed
  else some .unpacked

theorem bucketizeListEntry_eq (context : BucketizeContext) (f : FileEntry) : bucketizeListEntry context f =
    match bucketOf context.blobCutoffSizeBytes context.packUpperBytes f with
    | none => context
    | some .included => { context with includedFiles := context.includedFiles ++ [f] }
    | some .packed => { context with packedFiles := context.packedFiles ++ [f] }
    | some .unpacked => { context with unpackedFiles := context.unpackedFiles ++ [f] } := by
  by_cases hd : f.duplicate = true
  · simp [bucketizeListEntry, bucketOf, hd]
  by_cases h0 : (fileentryGetMinSize f).toUInt32 = 0
  · simp [bucketizeListEntry, bucketOf, h0]
  by_cases hl : sIslnk f.st.stMode
  · have hin : sIslnk f.st.stMode ∨ (fileentryGetMinSize f).toUInt32 < context.blobCutoffSizeBytes := .inl hl
    have hnot : ¬ (¬ sIslnk f.st.stMode ∧ ¬ sIsreg f.st.stMode) := fun h => h.1 hl
    have hcand : ¬ (f.duplicate = true ∨ (fileentryGetMinSize f).toUInt32 = 0 ∨
        ¬ (sIslnk f.st.stMode ∨ sIsreg f.st.stMode)) := by
      rintro (h | h | h)
      · exact hd h
      · exact h0 h
      · exact h (.inl hl)
    simp only [bucketizeListEntry, bucketOf, if_neg hd, if_neg h0, if_neg hnot, if_pos hin, if_neg hcand]
  by_cases hr : sIsreg f.st.stMode
  · by_cases hc : (fileentryGetMinSize f).toUInt32 < context.blobCutoffSizeBytes
    · simp [bucketizeListEntry, bucketOf, hd, h0, hl, hr, hc]
    · by_cases hp : (fileentryGetMinSize f).toUInt32 < context.packUpperBytes
      · simp [bucketizeListEntry, bucketOf, hd, h0, hl, hr, hc, hp]
      · simp [bucketizeListEntry, bucketOf, hd, h0, hl, hr, hc, hp]
  · simp [bucketizeListEntry, bucketOf, hd, h0, hl, hr]

/-- The upper limit for packs that `bucketize_file_list` uses. -/
def packLimit (cutoff packUpper : UInt32) : UInt32 := if packUpper ≤ cutoff then cutoff + 1 else packUpper

/-- **Each bucket has the entries that belong to it**, in order. -/
theorem bucketizeFileList_eq (files : List FileEntry) (cutoff packUpper : UInt32) :
    bucketizeFileList files cutoff packUpper =
      ⟨files.filter fun f => bucketOf cutoff (packLimit cutoff packUpper) f = some .included,
        files.filter fun f => bucketOf cutoff (packLimit cutoff packUpper) f = some .packed,
        files.filter fun f => bucketOf cutoff (packLimit cutoff packUpper) f = some .unpacked,
        cutoff, packLimit cutoff packUpper⟩ := by
  set limit := packLimit cutoff packUpper with hlimit
  have hfold : ∀ (files inc pac unp : List FileEntry),
      files.foldl bucketizeListEntry ⟨inc, pac, unp, cutoff, limit⟩ =
        ⟨inc ++ files.filter fun f => bucketOf cutoff limit f = some .included,
          pac ++ files.filter fun f => bucketOf cutoff limit f = some .packed,
          unp ++ files.filter fun f => bucketOf cutoff limit f = some .unpacked, cutoff, limit⟩ := by
    intro files
    induction files with
    | nil => intro inc pac unp; simp
    | cons f files ih =>
      intro inc pac unp
      rw [List.foldl_cons, bucketizeListEntry_eq]
      simp only
      cases hb : bucketOf cutoff limit f with
      | none => simp [ih, hb]
      | some b => cases b <;> simp [ih, hb]
  have h := hfold files [] [] []
  simpa [bucketizeFileList, packLimit, hlimit] using h

/-- What is put into a bucket is kept, and has something to store. -/
theorem bucketOf_some {cutoff packUpper : UInt32} {f : FileEntry} {b : Bucket}
    (h : bucketOf cutoff packUpper f = some b) : f.duplicate = false ∧ 0 < minSize f ∧
      (sIslnk f.st.stMode ∨ sIsreg f.st.stMode) ∧ (sIslnk f.st.stMode → b = .included) := by
  unfold bucketOf at h
  split at h
  · cases h
  rename_i hno
  obtain ⟨hd, h0, ht⟩ : ¬ f.duplicate = true ∧ ¬ (fileentryGetMinSize f).toUInt32 = 0 ∧
      ¬ ¬ (sIslnk f.st.stMode ∨ sIsreg f.st.stMode) := ⟨fun h => hno (.inl h), fun h => hno (.inr (.inl h)),
    fun h => hno (.inr (.inr h))⟩
  refine ⟨Bool.not_eq_true _ ▸ hd, Nat.pos_of_ne_zero fun h => h0 (UInt32.toNat_inj.1 h), not_not.1 ht, fun hl => ?_⟩
  rw [if_pos (.inl hl)] at h
  exact (Option.some.inj h).symm

theorem bucketOf_kept {cutoff packUpper : UInt32} {f : FileEntry} (hd : f.duplicate = false) (hpos : 0 < minSize f)
    (ht : sIslnk f.st.stMode ∨ sIsreg f.st.stMode) : ∃ b, bucketOf cutoff packUpper f = some b := by
  have h0 : (fileentryGetMinSize f).toUInt32 ≠ 0 := by
    intro h
    rw [minSize, h] at hpos
    exact absurd hpos (by decide)
  unfold bucketOf
  rw [if_neg (by simp [hd, h0, ht])]
  split
  · exact ⟨_, rfl⟩
  · split <;> exact ⟨_, rfl⟩

/-- An entry that is kept is included if it is a symlink or small enough. -/
theorem bucketOf_included {cutoff packUpper : UInt32} {f : FileEntry} (hd : f.duplicate = false) (hpos : 0 < minSize f)
    (ht : sIslnk f.st.stMode ∨ sIsreg f.st.stMode) : bucketOf cutoff packUpper f = some .included ↔
      sIslnk f.st.stMode ∨ (fileentryGetMinSize f).toUInt32 < cutoff := by
  have h0 : (fileentryGetMinSize f).toUInt32 ≠ 0 := by
    intro h
    rw [minSize, h] at hpos
    exact absurd hpos (by decide)
  unfold bucketOf
  rw [if_neg (by simp [hd, h0, ht])]
  constructor
  · intro h
    by_contra hn
    rw [if_neg hn] at h
    split at h <;> cases h
  · exact fun h => if_pos h

/-! ## Packs -/

/-- A pack with files in it, whose sizes are added up, and that is not written yet. -/
structure Filled (p : PackEntry) : Prop where
  files : p.files ≠ []
  size : p.size = UInt32.ofNat (p.files.map minSize).sum

theorem packlistInsert_filled {max : UInt32} {f : FileEntry} : ∀ {packs : List PackEntry},
    (∀ p ∈ packs, Filled p) → ∀ p ∈ packlistInsert max f packs, Filled p := by
  intro packs
  induction packs with
  | nil =>
    intro _ p hp
    rw [packlistInsert, List.mem_singleton] at hp
    subst hp
    exact ⟨by simp, by simp [ofNat_minSize]⟩
  | cons q packs ih =>
    intro h p hp
    have hq := h q List.mem_cons_self
    unfold packlistInsert at hp
    simp only at hp
    split at hp
    · rcases List.mem_cons.1 hp with rfl | hp
      · refine ⟨by simp, ?_⟩
        simp only [hq.size, List.map_append, List.sum_append, UInt32.ofNat_add]
        simp [ofNat_minSize]
      · exact h p (List.mem_cons_of_mem _ hp)
    · rcases List.mem_cons.1 hp with rfl | hp
      · exact hq
      · exact ih (fun p hp => h p (List.mem_cons_of_mem _ hp)) p hp

theorem packlistInsert_perm (max : UInt32) (f : FileEntry) (packs : List PackEntry) :
    ((packlistInsert max f packs).flatMap (·.files)).Perm (f :: packs.flatMap (·.files)) := by
  induction packs with
  | nil => simp [packlistInsert]
  | cons q packs ih =>
    unfold packlistInsert
    simp only
    split
    · simp only [List.flatMap_cons, List.append_assoc, List.singleton_append]
      exact List.perm_middle
    · simp only [List.flatMap_cons]
      exact (ih.append_left q.files).trans List.perm_middle

/-- **The packs have the packed files**, each in one pack. -/
theorem makePacks_perm (packed : List FileEntry) (max : UInt32) :
    (∀ p ∈ makePacks packed max, Filled p) ∧ ((makePacks packed max).flatMap (·.files)).Perm packed := by
  have hfold : ∀ (packed : List FileEntry) (packs : List PackEntry), (∀ p ∈ packs, Filled p) →
      (∀ p ∈ packed.foldl (fun list f => packlistInsert max f list) packs, Filled p) ∧
        ((packed.foldl (fun list f => packlistInsert max f list) packs).flatMap (·.files)).Perm
          (packs.flatMap (·.files) ++ packed) := by
    intro packed
    induction packed with
    | nil => intro packs h; exact ⟨h, by simp⟩
    | cons f packed ih =>
      intro packs h
      obtain ⟨hfilled, hperm⟩ := ih (packlistInsert max f packs) (packlistInsert_filled h)
      refine ⟨hfilled, hperm.trans ?_⟩
      have hins := (packlistInsert_perm max f packs).append_right packed
      exact hins.trans List.perm_middle.symm
  simpa [makePacks] using hfold packed [] (by simp)

/-! ## The cut-off -/

/-- **The search for the cut-off has enough rounds**: once the width has been halved often enough, more
rounds change nothing. -/
theorem cutoffSearch_rounds (files : List FileEntry) (upper : UInt32) : ∀ (n k : ℕ) (center width best : UInt32),
    width.toNat < 2 ^ (n + 1) →
    cutoffSearch files upper (n + k) center width best = cutoffSearch files upper n center width best := by
  intro n
  induction n with
  | zero =>
    intro k center width best hw
    have hw' : ¬ width > 1 := by
      rw [gt_iff_lt, UInt32.lt_iff_toNat_lt]
      have : (1 : UInt32).toNat = 1 := rfl
      omega
    cases k with
    | zero => rfl
    | succ k => simp [cutoffSearch, hw']
  | succ n ih =>
    intro k center width best hw
    have hhalf : (width / 2).toNat < 2 ^ (n + 1) := by
      have h2 : (2 : UInt32).toNat = 2 := rfl
      rw [UInt32.toNat_div, h2]
      rw [pow_succ] at hw
      omega
    rw [show n + 1 + k = (n + k) + 1 by omega]
    simp only [cutoffSearch, ih k _ _ _ hhalf]

end Sfmf

import Sfmf.Proof.Buckets

/-!
# Every content is stored exactly once

* `markDuplicates_total`: marking the duplicates of a list returns, unless a symlink is a
  hard link.
* `StoredOnce`: each hash of the list is that of one entry in the three buckets, the first
  of the list, and each bucket has the sizes it is for.
* `stored_once`: so it is after `mark_duplicates` and `bucketize_file_list`.
-/

namespace Sfmf

/-! ## Marking returns -/

/-- One comparison returns, unless it finds a symlink that is a hard link. -/
theorem markDuplicateOf_total {i : ℕ} {a b : FileEntry} (ha : a.hash.hashtype = hashtypeSha1)
    (hb : Stored b → b.hash.hashtype = hashtypeSha1)
    (hlink : Stored b → a.hash = b.hash → a.st.stIno = b.st.stIno → sIsreg b.st.stMode) :
    ∃ b', markDuplicateOf i a b = .ok b' ∧ SameFile b b' := by
  unfold markDuplicateOf
  by_cases hskip : skipsDuplicates b
  · exact ⟨b, by rw [if_pos hskip]; rfl, SameFile.refl b⟩
  rw [if_neg hskip, sfmfFilehashCompare_eq ha (hb hskip), ok_bind]
  by_cases hhash : a.hash = b.hash
  · rw [decide_eq_true hhash, if_pos rfl]
    by_cases hino : a.st.stIno = b.st.stIno
    · refine ⟨{ b with duplicate := true, hardlinkIndex := i }, ?_, true, i, rfl⟩
      simp only [hino, if_true, bind_ok, cAssert_ok, exists_const, pure_eq_ok, and_true]
      exact hlink hskip hhash hino
    · exact ⟨{ b with duplicate := true }, by simp only [hino, if_false]; rfl, true, b.hardlinkIndex, rfl⟩
  · exact ⟨b, by rw [decide_eq_false hhash]; rfl, SameFile.refl b⟩

theorem SameFile.forall₂_trans : ∀ {l l' l'' : List FileEntry}, List.Forall₂ SameFile l l' → List.Forall₂ SameFile l' l'' →
    List.Forall₂ SameFile l l''
  | _, _, _, .nil, .nil => .nil
  | _, _, _, .cons h hs, .cons h' hs' => .cons (h.trans h') (SameFile.forall₂_trans hs hs')

/-- No symlink is a hard link of an earlier entry of its content. -/
def NoLinkedSymlinks (files : List FileEntry) : Prop :=
  ∀ (i j : ℕ) (f g : FileEntry), i < j → files[i]? = some f → files[j]? = some g → Stored f → Stored g →
    sIslnk g.st.stMode → f.hash = g.hash → f.st.stIno ≠ g.st.stIno

theorem noLinkedSymlinks_of_pairwise {files : List FileEntry} (h : files.Pairwise fun f g => Stored f → Stored g →
    sIslnk g.st.stMode → f.hash = g.hash → f.st.stIno ≠ g.st.stIno) : NoLinkedSymlinks files := by
  intro i j f g hij hf hg
  obtain ⟨hi, rfl⟩ := List.getElem?_eq_some_iff.1 hf
  obtain ⟨hj, rfl⟩ := List.getElem?_eq_some_iff.1 hg
  exact List.pairwise_iff_getElem.1 h i j hi hj hij

/-- The hashes of the contents have been calculated. -/
def Hashed (files : List FileEntry) : Prop := ∀ f ∈ files, Stored f → f.hash.hashtype = hashtypeSha1

/-- **Marking returns.** -/
theorem markDuplicates_total {files : List FileEntry} (hlinks : NoLinkedSymlinks files) (hhash : Hashed files) :
    ∃ files', markDuplicates files = .ok files' := by
  refine (foldlM_total (fun cur => List.Forall₂ SameFile files cur) ?_
    (List.forall₂_same.2 fun f _ => SameFile.refl f)).imp fun _ h => h.1
  intro cur k hk hcur
  have hkfiles : k < files.length := List.mem_range.1 hk
  have hkcur : k < cur.length := hcur.length_eq ▸ hkfiles
  obtain ⟨d, n, hak⟩ : SameFile files[k] cur[k] := hcur.get hkfiles hkcur
  unfold markDuplicatesFrom
  rw [List.getElem?_eq_getElem hkcur]
  simp only
  by_cases hskip : skipsDuplicates cur[k]
  · exact ⟨cur, by rw [if_pos hskip]; rfl, hcur⟩
  rw [if_neg hskip]
  have hsk : Stored files[k] := by
    rw [hak] at hskip
    exact hskip
  -- each later entry is compared with the `k`-th
  have hround : ∀ b ∈ cur.drop (k + 1), ∃ b', markDuplicateOf k cur[k] b = .ok b' ∧ SameFile b b' := by
    intro b hb
    obtain ⟨m, hm, rfl⟩ := List.mem_iff_getElem.1 hb
    have hm' : k + 1 + m < cur.length := by
      rw [List.length_drop] at hm
      omega
    have hmf : k + 1 + m < files.length := hcur.length_eq ▸ hm'
    obtain ⟨d', n', hb⟩ : SameFile files[k + 1 + m] cur[k + 1 + m] := hcur.get hmf hm'
    rw [List.getElem_drop, hb, hak]
    refine markDuplicateOf_total (hhash files[k] (List.getElem_mem hkfiles) hsk)
      (hhash files[k + 1 + m] (List.getElem_mem hmf)) fun hs he hino => ?_
    by_contra hreg
    have hlnk : sIslnk files[k + 1 + m].st.stMode := by
      have hkind : sIsreg files[k + 1 + m].st.stMode ∨ sIslnk files[k + 1 + m].st.stMode := by
        by_contra hno
        exact hs (.inr hno)
      exact hkind.resolve_left hreg
    exact hlinks k (k + 1 + m) _ _ (by omega) (List.getElem?_eq_getElem hkfiles) (List.getElem?_eq_getElem hmf) hsk hs
      hlnk he hino
  obtain ⟨later, hlater, hsame⟩ := mapM_total hround
  refine ⟨cur.take (k + 1) ++ later, by rw [hlater]; rfl, ?_⟩
  have hcut : List.Forall₂ SameFile (files.take (k + 1) ++ files.drop (k + 1)) (cur.take (k + 1) ++ later) := by
    refine List.rel_append (List.forall₂_take _ hcur) ?_
    exact SameFile.forall₂_trans (List.forall₂_drop _ hcur) hsame
  rwa [List.take_append_drop] at hcut

/-! ## One entry of each hash -/

/-- **Every content is stored exactly once**: what `b` holds of a list whose duplicates are marked. -/
structure StoredOnce (files : List FileEntry) (b : BucketizeContext) (cutoff limit : ℕ) : Prop where
  once : ∀ f ∈ files, Stored f → ∃ g, files.find? (fun x => Stored x ∧ x.hash = f.hash) = some g ∧
    files.filter (fun x => Stored x ∧ x.hash = f.hash ∧ x.duplicate = false) = [g] ∧
    (b.includedFiles ++ b.packedFiles ++ b.unpackedFiles).filter (fun x => x.hash = f.hash) = [g]
  stored : ∀ f ∈ b.includedFiles ++ b.packedFiles ++ b.unpackedFiles, Stored f
  order : b.includedFiles.Sublist files ∧ b.packedFiles.Sublist files ∧ b.unpackedFiles.Sublist files
  included : ∀ f ∈ b.includedFiles, sIsreg f.st.stMode → minSize f < cutoff
  packed : ∀ f ∈ b.packedFiles, sIsreg f.st.stMode ∧ cutoff ≤ minSize f ∧ minSize f < limit
  unpacked : ∀ f ∈ b.unpackedFiles, sIsreg f.st.stMode ∧ limit ≤ minSize f

/-- The element of a key in a list where the keys are distinct. -/
theorem filter_key_eq {α β : Type} [DecidableEq β] {key : α → β} : ∀ {l : List α} {a : α}, (l.map key).Nodup →
    a ∈ l → l.filter (fun x => key x = key a) = [a] := by
  intro l
  induction l with
  | nil => intro a _ ha; cases ha
  | cons b l ih =>
    intro a hn ha
    rw [List.map_cons, List.nodup_cons] at hn
    rcases List.mem_cons.1 ha with rfl | ha
    · rw [List.filter_cons_of_pos (by simp)]
      have hnone : l.filter (fun x => key x = key a) = [] := by
        rw [List.filter_eq_nil_iff]
        intro x hx he
        exact hn.1 (List.mem_map.2 ⟨x, hx, by simpa using he⟩)
      rw [hnone]
    · have hne : ¬ key b = key a := fun he => hn.1 (he ▸ List.mem_map_of_mem ha)
      rw [List.filter_cons_of_neg (by simpa using hne)]
      exact ih hn.2 ha

/-- The buckets together have the entries that go into one. -/
theorem buckets_perm (bucket : FileEntry → Option Bucket) (files : List FileEntry) :
    (files.filter (fun f => bucket f = some .included) ++ files.filter (fun f => bucket f = some .packed) ++
      files.filter (fun f => bucket f = some .unpacked)).Perm (files.filter fun f => (bucket f).isSome) := by
  induction files with
  | nil => exact .refl _
  | cons f files ih =>
    cases hb : bucket f with
    | none => simpa [hb] using ih
    | some b =>
      cases b with
      | included => simpa [hb] using ih
      | packed =>
        simp only [hb, List.filter_cons]
        simp only [List.append_assoc] at ih
        simpa using List.perm_middle.trans (ih.cons f)
      | unpacked =>
        simp only [hb, List.filter_cons]
        simpa using List.perm_middle.trans (ih.cons f)

/-- An entry goes into a bucket exactly if it is kept. -/
theorem bucketOf_isSome {cutoff limit : UInt32} {f : FileEntry} (hs : f.st.stSize < 2 ^ 32) :
    (bucketOf cutoff limit f).isSome = true ↔ Kept f := by
  constructor
  · intro h
    obtain ⟨b, hb⟩ := Option.isSome_iff_exists.1 h
    obtain ⟨hd, hpos, ht, -⟩ := bucketOf_some hb
    refine ⟨?_, hd⟩
    rintro (h0 | hn)
    · exact (minSize_pos hs).1 hpos h0
    · exact hn ht.symm
  · rintro ⟨hstored, hd⟩
    have h0 : f.st.stSize ≠ 0 := fun h => hstored (.inl h)
    have ht : sIsreg f.st.stMode ∨ sIslnk f.st.stMode := by
      by_contra hn
      exact hstored (.inr hn)
    obtain ⟨b, hb⟩ : ∃ b, bucketOf cutoff limit f = some b := bucketOf_kept hd ((minSize_pos hs).2 h0) ht.symm
    rw [hb]
    rfl

/-- The first entry of a hash is kept. -/
theorem Deduplicated.find {files : List FileEntry} (h : Deduplicated files) {f : FileEntry} (hf : f ∈ files)
    (hs : Stored f) : ∃ g, files.find? (fun x => Stored x ∧ x.hash = f.hash) = some g ∧ g ∈ files ∧ Kept g ∧
      g.hash = f.hash := by
  have hsome : (files.find? (fun x => Stored x ∧ x.hash = f.hash)).isSome = true := by
    rw [List.find?_isSome]
    exact ⟨f, hf, by simp [hs]⟩
  obtain ⟨g, hg⟩ := Option.isSome_iff_exists.1 hsome
  obtain ⟨hp, i, hi, hgi, hbefore⟩ := List.find?_eq_some_iff_getElem.1 hg
  obtain ⟨hsg, hh⟩ := of_decide_eq_true hp
  refine ⟨g, hg, hgi ▸ List.getElem_mem hi, ⟨hsg, ?_⟩, hh⟩
  -- a duplicate would have an earlier entry of its hash
  by_contra hd
  have hd : g.duplicate = true := by simpa using hd
  obtain ⟨j, hji, g', hg', hsg', -, hh'⟩ := (h.duplicate i g (List.getElem?_eq_some_iff.2 ⟨hi, hgi⟩)).1 hd
  obtain ⟨hj, rfl⟩ := List.getElem?_eq_some_iff.1 hg'
  have hno := hbefore j hji
  simp [hsg', hh', hh] at hno

/-- The corrected upper limit for packs. -/
theorem packLimit_toNat {cutoff packUpper : UInt32} (hcut : cutoff.toNat < 2 ^ 32 - 1) :
    (packLimit cutoff packUpper).toNat = max packUpper.toNat (cutoff.toNat + 1) := by
  unfold packLimit
  split
  · rename_i hle
    rw [UInt32.le_iff_toNat_le] at hle
    have h1 : (1 : UInt32).toNat = 1 := rfl
    rw [UInt32.toNat_add, h1, Nat.mod_eq_of_lt (by omega)]
    omega
  · rename_i hlt
    rw [UInt32.le_iff_toNat_le] at hlt
    omega

/-- What the sizes of a bucket's entries are. -/
theorem bucketOf_bounds {cutoff limit : UInt32} {f : FileEntry} {b : Bucket} (h : bucketOf cutoff limit f = some b) :
    (b = .included ∧ (sIsreg f.st.stMode → minSize f < cutoff.toNat)) ∨
    (b = .packed ∧ sIsreg f.st.stMode ∧ cutoff.toNat ≤ minSize f ∧ minSize f < limit.toNat) ∨
    (b = .unpacked ∧ sIsreg f.st.stMode ∧ limit.toNat ≤ minSize f) := by
  obtain ⟨-, -, ht, -⟩ := bucketOf_some h
  unfold bucketOf at h
  split at h
  · cases h
  split at h
  · rename_i hin
    rw [Option.some.injEq] at h
    refine .inl ⟨h.symm, fun hreg => ?_⟩
    exact UInt32.lt_iff_toNat_lt.1 (hin.resolve_left (sIsreg_not_sIslnk hreg))
  · rename_i hout
    obtain ⟨hnl, hcut⟩ := not_or.1 hout
    have hcut : cutoff.toNat ≤ minSize f := not_lt.1 fun hlt => hcut (UInt32.lt_iff_toNat_lt.2 hlt)
    have hreg := ht.resolve_left hnl
    split at h
    · rename_i hlim
      rw [Option.some.injEq] at h
      exact .inr (.inl ⟨h.symm, hreg, hcut, UInt32.lt_iff_toNat_lt.1 hlim⟩)
    · rename_i hlim
      rw [Option.some.injEq] at h
      exact .inr (.inr ⟨h.symm, hreg, not_lt.1 fun hlt => hlim (UInt32.lt_iff_toNat_lt.2 hlt)⟩)

/-- The buckets of a list whose duplicates are marked. -/
theorem Deduplicated.storedOnce {files : List FileEntry} (h : Deduplicated files)
    (hsize : ∀ f ∈ files, f.st.stSize < 2 ^ 32) (cutoff packUpper : UInt32) :
    StoredOnce files (bucketizeFileList files cutoff packUpper) cutoff.toNat (packLimit cutoff packUpper).toNat := by
  rw [bucketizeFileList_eq]
  set bucket := bucketOf cutoff (packLimit cutoff packUpper) with hbucket
  have hperm := buckets_perm bucket files
  have hkept : files.filter (fun f => (bucket f).isSome) = files.filter (Kept ·) := by
    refine List.filter_congr fun f hf => ?_
    rw [Bool.eq_iff_iff, decide_eq_true_iff]
    exact bucketOf_isSome (hsize f hf)
  rw [hkept] at hperm
  constructor
  case once =>
    intro f hf hs
    obtain ⟨g, hfind, hg, hk, hh⟩ := h.find hf hs
    -- the kept entries have different hashes, so one of them has that of the file
    have hone : (files.filter (Kept ·)).filter (fun x => x.hash = f.hash) = [g] := by
      rw [← hh]
      exact filter_key_eq h.nodup (List.mem_filter.2 ⟨hg, decide_eq_true hk⟩)
    refine ⟨g, hfind, ?_, ?_⟩
    · rw [← hone, List.filter_filter]
      refine List.filter_congr fun x _ => ?_
      rw [Bool.eq_iff_iff, Bool.and_eq_true, decide_eq_true_iff, decide_eq_true_iff, decide_eq_true_iff, Kept]
      tauto
    · exact List.perm_singleton.1 (hone ▸ hperm.filter _)
  case stored =>
    intro f hf
    have hmem := hperm.mem_iff.1 hf
    exact (of_decide_eq_true (List.mem_filter.1 hmem).2 : Kept f).1
  case order => exact ⟨List.filter_sublist, List.filter_sublist, List.filter_sublist⟩
  case included =>
    intro f hf
    have hb := of_decide_eq_true (List.mem_filter.1 hf).2
    rcases bucketOf_bounds hb with ⟨-, h⟩ | ⟨h, -⟩ | ⟨h, -⟩
    · exact h
    · cases h
    · cases h
  case packed =>
    intro f hf
    have hb := of_decide_eq_true (List.mem_filter.1 hf).2
    rcases bucketOf_bounds hb with ⟨h, -⟩ | ⟨-, h⟩ | ⟨h, -⟩
    · cases h
    · exact h
    · cases h
  case unpacked =>
    intro f hf
    have hb := of_decide_eq_true (List.mem_filter.1 hf).2
    rcases bucketOf_bounds hb with ⟨h, -⟩ | ⟨h, -⟩ | ⟨-, h⟩
    · cases h
    · cases h
    · exact h

/-- **Every content is stored exactly once.** Of a list of files as `filelist_append` leaves it, with
sizes below 2^32 and no symlink that is a hard link: when the duplicates are marked, each hash is that
of one entry in the three buckets, the first of the list, whatever the cut-off and the limit. Marking
returns if the hashes have been calculated. -/
theorem stored_once {files : List FileEntry} (hfresh : ∀ f ∈ files, Fresh f)
    (hsize : ∀ f ∈ files, f.st.stSize < 2 ^ 32) (hlinks : NoLinkedSymlinks files) {cutoff packUpper : UInt32}
    (hcut : cutoff.toNat < 2 ^ 32 - 1) :
    (Hashed files → ∃ files', markDuplicates files = .ok files') ∧
      ∀ files', markDuplicates files = .ok files' → List.Forall₂ SameFile files files' ∧
        StoredOnce files' (bucketizeFileList files' cutoff packUpper) cutoff.toNat
          (max packUpper.toNat (cutoff.toNat + 1)) := by
  refine ⟨markDuplicates_total hlinks, fun files' hmark => ?_⟩
  obtain ⟨hsame, hdedup⟩ := markDuplicates_ok hmark hfresh
  refine ⟨hsame, ?_⟩
  rw [← packLimit_toNat hcut]
  refine hdedup.storedOnce (fun f' hf' => ?_) cutoff packUpper
  obtain ⟨i, hi, rfl⟩ := List.mem_iff_getElem.1 hf'
  have hi' : i < files.length := hsame.length_eq ▸ hi
  obtain ⟨d, n, he⟩ : SameFile files[i] files'[i] := hsame.get hi' hi
  rw [he]
  exact hsize files[i] (List.getElem_mem _)

/-- Two names of one content, and a symlink. -/
def twinFiles : List FileEntry :=
  [⟨⟨[1], by decide⟩, ⟨1, 0o100644, 0, 0, 0, 4, 0⟩, 3, ⟨4, hashtypeSha1, SfmfFileHash.zero.hash⟩, false, -1⟩,
    ⟨⟨[2], by decide⟩, ⟨2, 0o100644, 0, 0, 0, 4, 0⟩, 3, ⟨4, hashtypeSha1, SfmfFileHash.zero.hash⟩, false, -1⟩,
    ⟨⟨[3], by decide⟩, ⟨3, 0o120777, 0, 0, 0, 5, 0⟩, 0, ⟨5, hashtypeSha1, SfmfFileHash.zero.hash⟩, false, -1⟩]

theorem stored_once_twinFiles : (Hashed twinFiles → ∃ files', markDuplicates twinFiles = .ok files') ∧
    ∀ files', markDuplicates twinFiles = .ok files' → List.Forall₂ SameFile twinFiles files' ∧
      StoredOnce files' (bucketizeFileList files' 2 3) (UInt32.toNat 2) (max (UInt32.toNat 3) (UInt32.toNat 2 + 1)) := by
  -- no two of the inodes are the same
  have hlinks : NoLinkedSymlinks twinFiles := noLinkedSymlinks_of_pairwise (by decide)
  exact stored_once (by simp [twinFiles, Fresh]) (by simp [twinFiles]) hlinks (by decide)

end Sfmf

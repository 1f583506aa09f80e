import Sfmf.Proof.Classify
import Sfmf.Proof.LocalMatch

/-!
# Lazy hashing

`search_blob_hash` calculates the hash of a local file when it first meets the file
with the right size, and leaves it in the index for later searches.

* `referenceLookup`: the lookup in an index whose hashes are calculated beforehand.
* `HashedSome`: the index as earlier searches may have left it, kept by every search.
* `searchBlobHash_reference`: on such an index a search answers as the reference does.
* `lazyHashing_agrees`: so does every search of a run, in any order.
-/

namespace Sfmf

variable {E : Env} {L : Disk}

/-! ## The reference -/

/-- A local entry with its hash calculated beforehand, if it can be. -/
def precomputed (E : Env) (L : Disk) (f : FileEntry) : FileEntry := ((calculated E L f).toOption).getD f

/-- **The lookup with precomputed hashes**: the first included blob with the hash, or the first local file, or
the first pack in the order of the table, or a full download. -/
def referenceLookup (E : Env) (L : Disk) (m : Manifest) (index : List FileEntry) (hash : SfmfFileHash) : BlobResult :=
  (((m.bentries.find? fun b => hash = b.hash).map BlobResult.included).or
    ((((index.map (precomputed E L)).find? fun f => hash = f.hash).map BlobResult.localFile).or
      (((m.pentries.zip m.packHashes).find? fun p => p.2.any fun h => hash = h).map fun p => .packed p.1))).getD .full

/-! ## The index -/

/-- What `filelist_append` leaves of a local hash: it is to be calculated, has been, or is that of no size. -/
def Prepared (f : FileEntry) : Prop :=
  f.hash.hashtype = hashtypeLazy ∨ f.hash.hashtype = hashtypeSha1 ∨ f.hash.size = 0

theorem EntryMade.prepared {p : CString} {st : Stat} {f : FileEntry} (h : EntryMade E L p st .none f) : Prepared f := by
  cases h with
  | lazy => exact .inl rfl
  | symlink => exact .inr (.inl rfl)
  | other => exact .inr (.inr rfl)

/-- The index of local files, as `extend_file_list` builds it. -/
theorem extendFileList_prepared {ignore : Bool} {walk : List CString} {list list' : List FileEntry}
    (h : extendFileList E L ignore .none list walk = .ok list') (hl : ∀ f ∈ list, Prepared f) :
    ∀ f ∈ list', Prepared f :=
  extendFileList_each (fun _ _ _ _ _ hf => hf.prepared) h hl

/-- **The calculation of a hash**: the size stays, the type is SHA-1, and there is nothing more to calculate. -/
theorem calculated_ok {f f' : FileEntry} (h : calculated E L f = .ok f') : f'.hash.size = f.hash.size ∧
    (Prepared f → f.hash.size ≠ 0 → f'.hash.hashtype = hashtypeSha1) ∧ calculated E L f' = .ok f' := by
  unfold calculated at h
  by_cases hlazy : f.hash.hashtype = hashtypeLazy
  · rw [if_pos hlazy] at h
    obtain ⟨d, z, -, -, rfl⟩ := fileentryCalculateZsizeHash_ok.1 h
    exact ⟨rfl, fun _ _ => rfl, if_neg (Ne.symm sha1_ne_lazy ∘ Eq.symm)⟩
  · rw [if_neg hlazy] at h
    cases h
    refine ⟨rfl, fun hprep h0 => ?_, if_neg hlazy⟩
    exact (hprep.resolve_left hlazy).resolve_right h0

theorem precomputed_eq {f f' : FileEntry} (h : calculated E L f = .ok f') : precomputed E L f = f' := by
  rw [precomputed, h]
  rfl

theorem precomputed_size (f : FileEntry) : (precomputed E L f).hash.size = f.hash.size := by
  cases h : calculated E L f with
  | ok f' => rw [precomputed_eq h, (calculated_ok h).1]
  | error s => rw [precomputed, h]; rfl

/-- An entry as earlier searches may have left it. -/
def HashedSome (E : Env) (L : Disk) (f f' : FileEntry) : Prop := f' = f ∨ calculated E L f = .ok f'

/-- Its calculation is that of the first entry. -/
theorem HashedSome.calculated {f f₁ f' : FileEntry} (h : HashedSome E L f f₁) (hcalc : calculated E L f₁ = .ok f') :
    Sfmf.calculated E L f = .ok f' := by
  rcases h with rfl | h
  · exact hcalc
  · rw [(calculated_ok h).2.2, Except.ok.injEq] at hcalc
    rwa [hcalc] at h

theorem HashedSome.size {f f' : FileEntry} (h : HashedSome E L f f') : f'.hash.size = f.hash.size := by
  rcases h with rfl | h
  · rfl
  · exact (calculated_ok h).1

/-! ## The searches -/

/-- **A search among local files** finds what the reference finds, and leaves such an index. -/
theorem searchLocal_reference {hash : SfmfFileHash} {index list : List FileEntry}
    (hlist : List.Forall₂ (HashedSome E L) index list) : ∀ {list' : List FileEntry} {found : Option FileEntry},
    searchLocal E L hash list = .ok (found, list') →
    found = (index.map (precomputed E L)).find? (fun f => hash = f.hash) ∧ List.Forall₂ (HashedSome E L) index list' := by
  induction hlist with
  | nil => intro list' found h; cases h; exact ⟨rfl, .nil⟩
  | @cons f f₁ index list hf hrest ih =>
    intro list' found h
    rw [List.map_cons, List.find?_cons]
    rcases searchLocal_cons h with ⟨hsize, rest, hsearch, rfl⟩ | ⟨_, f', hcalc, _, _, hcase⟩
    · obtain ⟨hfound, hkept⟩ := ih hsearch
      have hne : ¬ hash = (precomputed E L f).hash := by
        intro heq
        rw [heq, precomputed_size, hf.size] at hsize
        exact hsize rfl
      rw [decide_eq_false hne]
      exact ⟨hfound, .cons hf hkept⟩
    have hf' := hf.calculated hcalc
    rw [precomputed_eq hf']
    rcases hcase with ⟨hh, rfl, rfl⟩ | ⟨hh, rest, hsearch, rfl⟩
    · rw [decide_eq_true hh]
      exact ⟨rfl, .cons (.inr hf') hrest⟩
    · obtain ⟨hfound, hkept⟩ := ih hsearch
      rw [decide_eq_false hh]
      exact ⟨hfound, .cons (.inr hf') hkept⟩

/-- **A search answers as the reference does.** -/
theorem searchBlobHash_reference {m : Manifest} {hash : SfmfFileHash} {index list list' : List FileEntry} {r : BlobResult}
    (hlist : List.Forall₂ (HashedSome E L) index list) (h : searchBlobHash E L m hash list = .ok (r, list')) :
    r = referenceLookup E L m index hash ∧ List.Forall₂ (HashedSome E L) index list' := by
  have hcompare : ∀ (a : SfmfFileHash) (t : Bool), sfmfFilehashCompare hash a = .ok t → t = decide (hash = a) :=
    fun a t ht => (sfmfFilehashCompare_ok.1 ht).2.2
  simp only [searchBlobHash, bind_ok] at h
  obtain ⟨found, hfound, h⟩ := h
  have hincluded := findM_eq hfound fun b _ t ht => hcompare b.hash t ht
  unfold referenceLookup
  rw [← hincluded]
  cases found with
  | some b => cases h; exact ⟨rfl, hlist⟩
  | none =>
    simp only [bind_ok] at h
    obtain ⟨⟨found, list₁⟩, hsearch, h⟩ := h
    obtain ⟨hlocal, hkept⟩ := searchLocal_reference hlist hsearch
    rw [← hlocal]
    cases found with
    | some f => cases h; exact ⟨rfl, hkept⟩
    | none =>
      simp only [bind_ok] at h
      obtain ⟨pack, hpack, h⟩ := h
      have hpacked := findM_eq hpack fun p _ t ht => anyM_eq ht fun a _ t ht => hcompare a t ht
      rw [← hpacked]
      cases pack with
      | some p => cases h; exact ⟨rfl, hkept⟩
      | none => cases h; exact ⟨rfl, hkept⟩

/-! ## The assertion on hashes -/

/-- The text of the assertion that a local file of the right size has a hash. -/
def hashAssertion : String := "entry->hash.hashtype == HASHTYPE_SHA1"

section

variable {σ ω : Type}

/-- Compression has other assertions. -/
theorem deflateInput_avoids : ∀ (n : ℕ) (stream : E.zlib.Deflate) (input : Bytes) (w : Writer ω),
    Exec.Avoids hashAssertion (deflateInput E n stream input w) := by
  intro n
  induction n with
  | zero => exact fun _ _ _ => .of_spin
  | succ n ih =>
    intro stream input w
    unfold deflateInput
    refine (Exec.Avoids.assert (.inl (by simp [hashAssertion]))).bind fun _ _ => ?_
    refine (Exec.Avoids.assert (.inl (by simp [hashAssertion]))).bind fun _ _ => ?_
    split
    · exact .of_ok
    · exact ih _ _ _

theorem deflateFinish_avoids : ∀ (n : ℕ) (stream : E.zlib.Deflate) (w : Writer ω),
    Exec.Avoids hashAssertion (deflateFinish E n stream w) := by
  intro n
  induction n with
  | zero => exact fun _ _ => .of_spin
  | succ n ih =>
    intro stream w
    unfold deflateFinish
    refine (Exec.Avoids.assert (.inl (by simp [hashAssertion]))).bind fun _ _ => ?_
    refine (Exec.Avoids.assert (.inl (by simp [hashAssertion]))).bind fun _ _ => ?_
    split
    · exact .of_ok
    · exact ih _ _

theorem zcompressedLoop_avoids : ∀ (n : ℕ) (stream : E.zlib.Deflate) (r : Reader σ) (w : Writer ω),
    Exec.Avoids hashAssertion (zcompressedLoop E n stream r w) := by
  intro n
  induction n with
  | zero => exact fun _ _ _ => .of_spin
  | succ n ih =>
    intro stream r w
    unfold zcompressedLoop
    simp only
    split
    · exact (deflateFinish_avoids _ _ _).bind fun _ _ => .of_ok
    · exact (deflateInput_avoids _ _ _ _).bind fun _ _ => ih _ _ _

end

/-- The calculation of a hash has other assertions. -/
theorem calculated_avoids (f : FileEntry) : Exec.Avoids hashAssertion (calculated E L f) := by
  unfold calculated
  split
  · refine Exec.Avoids.bind ?_ fun d _ => ?_
    · unfold Disk.openFile
      split
      · exact .of_ok
      · exact fun h => absurd (Stop.assertion.inj (Except.error.inj h)) (by simp [hashAssertion])
    · exact Exec.Avoids.bind ((zcompressedLoop_avoids _ _ _ _).bind fun _ _ => .of_ok) fun _ _ => .of_ok
  · exact .of_ok

theorem compare_avoids (a b : SfmfFileHash) : Exec.Avoids hashAssertion (sfmfFilehashCompare a b) :=
  (Exec.Avoids.assert (.inl (by simp [hashAssertion]))).bind fun _ _ => .of_ok

/-- A search does not meet an entry of the right size without a hash. -/
theorem searchLocal_avoids {hash : SfmfFileHash} (h0 : hash.size ≠ 0) : ∀ {list : List FileEntry},
    (∀ f ∈ list, Prepared f) → Exec.Avoids hashAssertion (searchLocal E L hash list) := by
  intro list
  induction list with
  | nil => exact fun _ => .of_ok
  | cons f list ih =>
    intro hl
    have hrest := ih fun g hg => hl g (List.mem_cons_of_mem _ hg)
    rw [searchLocal_eq]
    by_cases hsize : f.hash.size ≠ hash.size
    · rw [if_pos hsize]
      exact hrest.bind fun _ _ => .of_ok
    · rw [if_neg hsize]
      refine (calculated_avoids f).bind fun f' hcalc => ?_
      have hsha := (calculated_ok hcalc).2.1 (hl f List.mem_cons_self) (by rw [not_not.1 hsize]; exact h0)
      refine (Exec.Avoids.assert (.inr hsha)).bind fun _ _ => (compare_avoids _ _).bind fun same _ => ?_
      cases same with
      | true => exact .of_ok
      | false => exact hrest.bind fun _ _ => .of_ok

/-- **The assertion on hashes does not fail** in a search for a hash of some size. -/
theorem searchBlobHash_avoids {m : Manifest} {hash : SfmfFileHash} (h0 : hash.size ≠ 0) {list : List FileEntry}
    (hl : ∀ f ∈ list, Prepared f) : Exec.Avoids hashAssertion (searchBlobHash E L m hash list) := by
  unfold searchBlobHash
  refine (Exec.Avoids.findM fun b _ => compare_avoids _ _).bind fun found _ => ?_
  cases found with
  | some b => exact .of_ok
  | none =>
    refine (searchLocal_avoids h0 hl).bind fun p _ => ?_
    obtain ⟨found, list₁⟩ := p
    cases found with
    | some f => exact .of_ok
    | none =>
      refine (Exec.Avoids.findM fun p _ => Exec.Avoids.anyM fun a _ => compare_avoids _ _).bind fun pack _ => ?_
      cases pack with
      | some p => exact .of_ok
      | none => exact .of_ok

/-- What has been searched is still prepared. -/
theorem HashedSome.prepared {index list : List FileEntry} (h : List.Forall₂ (HashedSome E L) index list)
    (hindex : ∀ f ∈ index, Prepared f) : ∀ f ∈ list, Prepared f := by
  intro f' hf'
  obtain ⟨i, hi, rfl⟩ := List.getElem_of_mem hf'
  have hi' : i < index.length := h.length_eq ▸ hi
  have hprep := hindex index[i] (List.getElem_mem hi')
  rcases h.get hi' hi with heq | hcalc
  · simp only [List.get_eq_getElem] at heq
    rwa [heq]
  · simp only [List.get_eq_getElem] at hcalc
    obtain ⟨hsize, hsha, _⟩ := calculated_ok hcalc
    by_cases h0 : index[i].hash.size = 0
    · exact .inr (.inr (hsize.trans h0))
    · exact .inr (.inl (hsha hprep h0))

/-! ## Searches that return -/

/-- What lets every search return: the tables of the manifest have SHA-1 hashes, and the hashes of the local files
can be calculated. -/
structure Searchable (E : Env) (L : Disk) (m : Manifest) (index : List FileEntry) : Prop where
  blobs : ∀ b ∈ m.bentries, b.hash.hashtype = hashtypeSha1
  packs : ∀ hashes ∈ m.packHashes, ∀ h ∈ hashes, h.hashtype = hashtypeSha1
  files : ∀ f ∈ index, ∃ f', calculated E L f = .ok f'

theorem searchLocal_total {hash : SfmfFileHash} (h0 : hash.size ≠ 0) (hwant : hash.hashtype = hashtypeSha1) :
    ∀ {list : List FileEntry}, (∀ f ∈ list, Prepared f ∧ ∃ f', calculated E L f = .ok f') →
    ∃ p, searchLocal E L hash list = .ok p := by
  intro list
  induction list with
  | nil => exact fun _ => ⟨_, rfl⟩
  | cons f list ih =>
    intro hl
    obtain ⟨p, hp⟩ := ih fun g hg => hl g (List.mem_cons_of_mem _ hg)
    obtain ⟨hprep, f', hcalc⟩ := hl f List.mem_cons_self
    rw [searchLocal_eq, hp]
    by_cases hsize : f.hash.size ≠ hash.size
    · rw [if_pos hsize]
      exact ⟨_, rfl⟩
    · have hsha := (calculated_ok hcalc).2.1 hprep (by rw [not_not.1 hsize]; exact h0)
      rw [if_neg hsize, hcalc, ok_bind, cAssert_pos hsha, ok_bind, sfmfFilehashCompare_eq hwant hsha, ok_bind]
      split <;> exact ⟨_, rfl⟩

theorem searchBlobHash_total {m : Manifest} {hash : SfmfFileHash} {index list : List FileEntry}
    (hlist : List.Forall₂ (HashedSome E L) index list) (hindex : ∀ f ∈ index, Prepared f)
    (hs : Searchable E L m index) (h0 : hash.size ≠ 0) (hwant : hash.hashtype = hashtypeSha1) :
    ∃ p, searchBlobHash E L m hash list = .ok p := by
  have hready : ∀ f ∈ list, Prepared f ∧ ∃ f', calculated E L f = .ok f' := by
    intro f hf
    refine ⟨HashedSome.prepared hlist hindex f hf, ?_⟩
    obtain ⟨i, hi, rfl⟩ := List.getElem_of_mem hf
    have hi' : i < index.length := hlist.length_eq ▸ hi
    rcases hlist.get hi' hi with heq | hcalc
    · simp only [List.get_eq_getElem] at heq
      rw [heq]
      exact hs.files _ (List.getElem_mem hi')
    · exact ⟨_, (calculated_ok hcalc).2.2⟩
  obtain ⟨⟨found, list₁⟩, hsearch⟩ := searchLocal_total h0 hwant hready
  unfold searchBlobHash
  rw [findM_ok fun b hb => sfmfFilehashCompare_eq hwant (hs.blobs b hb), ok_bind]
  split
  · exact ⟨_, rfl⟩
  rw [hsearch, ok_bind]
  cases found with
  | some f => exact ⟨_, rfl⟩
  | none =>
    have hpacks : ∀ p ∈ m.pentries.zip m.packHashes, p.2.anyM (sfmfFilehashCompare hash) =
        .ok (p.2.any fun h => hash = h) :=
      fun p hp => anyM_ok fun h hh => sfmfFilehashCompare_eq hwant (hs.packs p.2 (List.of_mem_zip hp).2 h hh)
    simp only [findM_ok hpacks, ok_bind]
    split <;> exact ⟨_, rfl⟩

/-! ## Runs of searches -/

/-- `search_blob_hash` for one hash after the other, on one index. -/
def searchBlobHashes (E : Env) (L : Disk) (m : Manifest) :
    List SfmfFileHash → List FileEntry → Exec (List BlobResult × List FileEntry)
  | [], localFiles => return ([], localFiles)
  | hash :: hashes, localFiles => do
    let (result, localFiles) ← searchBlobHash E L m hash localFiles
    let (results, localFiles) ← searchBlobHashes E L m hashes localFiles
    return (result :: results, localFiles)

/-- What the reference makes of an entry of the manifest. -/
def referenceResult (E : Env) (L : Disk) (m : Manifest) (index : List FileEntry) (entry : SfmfFileEntry) : BlobResult :=
  if entry.type = entryHardlink then .hardlink
  else if entry.hash.size > 0 then referenceLookup E L m index entry.hash
  else .empty

/-- **Lazy hashing does not change the outcome.** -/
structure LazyAgrees (E : Env) (L : Disk) (m : Manifest) (index : List FileEntry) : Prop where
  /-- each answer is that of the reference, whatever was searched before -/
  answers : ∀ hashes results index', searchBlobHashes E L m hashes index = .ok (results, index') →
    results = hashes.map (referenceLookup E L m index)
  /-- every local file of the right size has a hash -/
  asserts : ∀ hashes, (∀ h ∈ hashes, h.size ≠ 0) →
    searchBlobHashes E L m hashes index ≠ .error (.assertion "entry->hash.hashtype == HASHTYPE_SHA1")
  /-- the classification of an entry does not depend on the others -/
  classified : ∀ opts entries us index', opts.localDisk = L → classifyEntries E opts m index entries = .ok (us, index') →
    List.Forall₂ (fun entry u => u.blobResult = referenceResult E L m index entry) entries us
  /-- and there are answers -/
  answered : Searchable E L m index → ∀ hashes, (∀ h ∈ hashes, h.size ≠ 0 ∧ h.hashtype = hashtypeSha1) →
    ∃ p, searchBlobHashes E L m hashes index = .ok p

/-- A run of searches, on an index as earlier searches may have left it. -/
theorem searchBlobHashes_reference {m : Manifest} {index : List FileEntry} : ∀ {hashes : List SfmfFileHash}
    {results : List BlobResult} {list list' : List FileEntry}, List.Forall₂ (HashedSome E L) index list →
    searchBlobHashes E L m hashes list = .ok (results, list') → results = hashes.map (referenceLookup E L m index) := by
  intro hashes
  induction hashes with
  | nil => intro results list list' _ h; cases h; rfl
  | cons hash hashes ih =>
    intro results list list' hlist h
    simp only [searchBlobHashes, bind_ok, pure_eq_ok, Except.ok.injEq, Prod.mk.injEq] at h
    obtain ⟨⟨r, list₁⟩, hsearch, ⟨rs, list₂⟩, hrest, rfl, rfl⟩ := h
    obtain ⟨rfl, hkept⟩ := searchBlobHash_reference hlist hsearch
    rw [ih hkept hrest, List.map_cons]

theorem searchBlobHashes_avoids {m : Manifest} {index : List FileEntry} (hindex : ∀ f ∈ index, Prepared f) :
    ∀ {hashes : List SfmfFileHash} {list : List FileEntry}, List.Forall₂ (HashedSome E L) index list →
    (∀ h ∈ hashes, h.size ≠ 0) → Exec.Avoids hashAssertion (searchBlobHashes E L m hashes list) := by
  intro hashes
  induction hashes with
  | nil => exact fun _ _ => .of_ok
  | cons hash hashes ih =>
    intro list hlist h0
    have hprep := HashedSome.prepared hlist hindex
    refine (searchBlobHash_avoids (h0 hash List.mem_cons_self) hprep).bind fun p hp => ?_
    obtain ⟨r, list₁⟩ := p
    have hkept := (searchBlobHash_reference hlist hp).2
    exact (ih hkept fun h hh => h0 h (List.mem_cons_of_mem _ hh)).bind fun _ _ => .of_ok

theorem searchBlobHashes_total {m : Manifest} {index : List FileEntry} (hindex : ∀ f ∈ index, Prepared f)
    (hs : Searchable E L m index) : ∀ {hashes : List SfmfFileHash} {list : List FileEntry},
    List.Forall₂ (HashedSome E L) index list → (∀ h ∈ hashes, h.size ≠ 0 ∧ h.hashtype = hashtypeSha1) →
    ∃ p, searchBlobHashes E L m hashes list = .ok p := by
  intro hashes
  induction hashes with
  | nil => exact fun _ _ => ⟨_, rfl⟩
  | cons hash hashes ih =>
    intro list hlist hwant
    obtain ⟨h0, hsha⟩ := hwant hash List.mem_cons_self
    obtain ⟨⟨r, list₁⟩, hsearch⟩ := searchBlobHash_total hlist hindex hs h0 hsha
    have hkept := (searchBlobHash_reference hlist hsearch).2
    obtain ⟨p, hp⟩ := ih hkept fun h hh => hwant h (List.mem_cons_of_mem _ hh)
    exact ⟨(r :: p.1, p.2), by simp only [searchBlobHashes, hsearch, hp, ok_bind, pure_eq_ok]⟩

theorem classifyEntries_reference {opts : UnpackOptions} {m : Manifest} {index : List FileEntry}
    (hL : opts.localDisk = L) : ∀ {entries : List SfmfFileEntry} {us : List UnpackFileEntry} {list list' : List FileEntry},
    List.Forall₂ (HashedSome E L) index list → classifyEntries E opts m list entries = .ok (us, list') →
    List.Forall₂ (fun entry u => u.blobResult = referenceResult E L m index entry) entries us := by
  intro entries
  induction entries with
  | nil => intro us list list' _ h; cases h; exact .nil
  | cons entry entries ih =>
    intro us list list' hlist h
    obtain ⟨u, list₁, us₁, hu, hrest, rfl⟩ := classifyEntries_cons.1 h
    obtain ⟨name, r, -, rfl, -, hcase⟩ := unpackClassifyEntry_iff.1 hu
    -- only a search changes the index, and it keeps the invariant
    have hstep : r = referenceResult E L m index entry ∧ List.Forall₂ (HashedSome E L) index list₁ := by
      rcases hcase with ⟨ht, rfl, rfl⟩ | ⟨ht, hsize, hr⟩ | ⟨ht, hsize, rfl, rfl⟩
      · exact ⟨(if_pos ht).symm, hlist⟩
      · rw [hL] at hr
        obtain ⟨hr, hkept⟩ := searchBlobHash_reference hlist hr
        exact ⟨by rw [referenceResult, if_neg ht, if_pos hsize, hr], hkept⟩
      · exact ⟨by rw [referenceResult, if_neg ht, if_neg hsize], hlist⟩
    exact .cons hstep.1 (ih hstep.2 hrest)

/-- **Lazy hashing agrees with the reference**, for every manifest, every index of local files and every run of
searches. -/
theorem lazyHashing_agrees {ignore : Bool} {sourcedirs : List (List CString)} {index : List FileEntry} (m : Manifest)
    (hbuilt : sourcedirs.foldlM (extendFileList E L ignore .none) [] = .ok index) : LazyAgrees E L m index := by
  have hindex : ∀ f ∈ index, Prepared f :=
    foldlM_inv (fun list : List FileEntry => ∀ f ∈ list, Prepared f)
      (fun _ _ _ _ hs hstep => extendFileList_prepared hstep hs) (by simp) hbuilt
  have hstart : List.Forall₂ (HashedSome E L) index index := List.forall₂_same.2 fun f _ => .inl rfl
  constructor
  case answers => exact fun hashes results index' h => searchBlobHashes_reference hstart h
  case asserts => exact fun hashes h0 => searchBlobHashes_avoids hindex hstart h0
  case classified => exact fun opts entries us index' hL h => classifyEntries_reference hL hstart h
  case answered => exact fun hs hashes hwant => searchBlobHashes_total hindex hs hstart hwant

/-- The hashes of the letters and of the letter that a symlink has as its target. -/
def letterQueries : List SfmfFileHash :=
  [⟨1, hashtypeSha1, letterDigest⟩, ⟨32, hashtypeSha1, lettersDigest⟩, ⟨32, hashtypeSha1, letterDigest⟩,
    ⟨32, hashtypeSha1, lettersDigest⟩]

/-- The file of letters is hashed by the second search, and found by it and by the last one. -/
theorem lazyHashing_agrees_letters : LazyAgrees letterTreeEnv linkTree.toDisk emptyManifest linkIndex ∧
    ∃ index', searchBlobHashes letterTreeEnv linkTree.toDisk emptyManifest letterQueries linkIndex =
      .ok ([.localFile ⟨letterLink, ⟨5, 0o120777, 0, 0, 0, 1, 7⟩, 0, ⟨1, hashtypeSha1, letterDigest⟩, false, -1⟩,
        .localFile letterTreeFile, .full, .localFile letterTreeFile], index') := by
  have hbuilt : [[letterDir, letterPath, letterLink]].foldlM (extendFileList letterTreeEnv linkTree.toDisk true .none) [] =
    .ok linkIndex := by decide +kernel
  exact ⟨lazyHashing_agrees emptyManifest hbuilt, linkIndexHashed, by decide +kernel⟩

end Sfmf

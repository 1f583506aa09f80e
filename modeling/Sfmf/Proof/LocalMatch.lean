import Sfmf.Proof.Buckets
import Sfmf.Spec.Unpack

/-!
# Matches among local files

The index of local files has the hashes of regular files and of the targets of symlinks.
A match is copied through `fopen`, which reads a regular file, but follows a symlink.

* `Indexed`: what the index knows of a local file, kept by each search.
* `searchLocal_ok`: a search finds the first entry that carries the wanted hash.
* `local_match_iff`: the match can be copied exactly if this entry is a regular file
  below 4 GiB, or a symlink that leads to the right content.
* `local_match_link`: a symlink whose target is the wanted content.
-/

namespace Sfmf

variable {E : Env} {L : SourceTree}

/-! ## The index -/

theorem sha1_ne_lazy : hashtypeSha1 ≠ hashtypeLazy := by decide

/-- **An entry of the index of local files.** The hash of a regular file may still have to be calculated. -/
structure Indexed (E : Env) (L : SourceTree) (f : FileEntry) : Prop where
  stored : Stored f → ∃ d, contentOf L.toDisk f = some d ∧ d.length = f.st.stSize ∧
    f.hash.size = UInt32.ofNat d.length ∧ ((f.hash.hashtype = hashtypeLazy ∧ sIsreg f.st.stMode) ∨ f.hash = hashOf E d)
  other : skipsDuplicates f → f.hash = .zero

/-- An index of local files: as it is built, or as an earlier search has left it. -/
inductive LocalIndex (E : Env) (L : SourceTree) : List FileEntry → Prop where
  | built {sourcedirs : List (List CString)} {list : List FileEntry}
      (h : sourcedirs.foldlM (extendFileList E L.toDisk true .none) [] = .ok list) : LocalIndex E L list
  | searched {list list' : List FileEntry} {m : Manifest} {hash : SfmfFileHash} {r : BlobResult}
      (hlist : LocalIndex E L list) (h : searchBlobHash E L.toDisk m hash list = .ok (r, list')) : LocalIndex E L list'

/-- What `filelist_append` makes of a local path. -/
theorem EntryMade.indexed {p : CString} {st : Stat} {f : FileEntry} (hst : L.lstat p = some st)
    (h : EntryMade E L.toDisk p st .none f) : Indexed E L f := by
  cases h with
  | lazy hreg hpos =>
    obtain ⟨d, hd, hlen⟩ := L.regular hst hreg
    exact ⟨fun _ => ⟨d, (if_neg (sIsreg_not_sIslnk hreg)).trans hd, hlen, by rw [hlen], .inl ⟨rfl, hreg⟩⟩,
      fun hs => absurd hs (stored_regular hreg hpos)⟩
  | @symlink _ t hlnk ht =>
    obtain ⟨t', ht', hlen, -, -, hmax⟩ := L.symlink hst hlnk
    obtain rfl : t = t' := Option.some.inj (ht.symm.trans ht')
    have htake : t.take pathMax = t := List.take_of_length_le hmax.le
    exact ⟨fun _ => ⟨t, (if_pos hlnk).trans ht, hlen, by rw [htake]; rfl, .inr (by rw [htake])⟩,
      fun hs => absurd hs (stored_symlink hst hlnk)⟩
  | other hreg hlnk => exact ⟨fun hs => absurd (skips_other hreg hlnk) hs, fun _ => rfl⟩

/-- The walks over the source directories. -/
theorem extendFileList_indexed {walk : List CString} {list list' : List FileEntry}
    (h : extendFileList E L.toDisk true .none list walk = .ok list') (hl : ∀ f ∈ list, Indexed E L f) :
    ∀ f ∈ list', Indexed E L f :=
  extendFileList_each (fun _ _ _ hst _ hf => hf.indexed hst) h hl

/-! ## The search -/

/-- The entry carries the hash: its size, and the SHA-1 of its content. -/
def carries (E : Env) (L : Disk) (hash : SfmfFileHash) (f : FileEntry) : Bool :=
  Stored f ∧ f.hash.size = hash.size ∧ (contentOf L f).map E.sha1 = some hash.hash

/-- The lazy calculation of a hash. -/
def calculated (E : Env) (L : Disk) (f : FileEntry) : Exec FileEntry :=
  if f.hash.hashtype = hashtypeLazy then fileentryCalculateZsizeHash E L f else pure f

/-- It changes nothing but the hash and the compressed size. -/
theorem calculated_indexed {f f' : FileEntry} (h : calculated E L.toDisk f = .ok f') (hf : Indexed E L f) :
    Indexed E L f' ∧ f'.filename = f.filename ∧ f'.st = f.st ∧ f'.hash.size = f.hash.size := by
  unfold calculated at h
  by_cases hlazy : f.hash.hashtype = hashtypeLazy
  · rw [if_pos hlazy] at h
    have hs : Stored f := by
      intro hs
      rw [hf.other hs] at hlazy
      exact absurd hlazy (by decide)
    obtain ⟨d, hd, hlen, hsize, hcase⟩ := hf.stored hs
    have hreg : sIsreg f.st.stMode := by
      rcases hcase with ⟨-, hr⟩ | hh
      · exact hr
      · rw [hh] at hlazy
        exact absurd hlazy sha1_ne_lazy
    have hopen : L.fopen f.filename = some d := (if_neg (sIsreg_not_sIslnk hreg)).symm.trans hd
    obtain ⟨d', z, hd', -, rfl⟩ := fileentryCalculateZsizeHash_ok.1 h
    obtain rfl : d = d' := Option.some.inj (hopen.symm.trans hd')
    refine ⟨⟨fun _ => ⟨d, hd, hlen, hsize, .inr ?_⟩, fun h => absurd h hs⟩, rfl, rfl, rfl⟩
    rw [hashOf, ← hsize]
  · rw [if_neg hlazy] at h
    cases h
    exact ⟨hf, rfl, rfl, rfl⟩

/-- A calculated hash that is SHA-1 is that of the content. -/
theorem Indexed.carries_iff {f : FileEntry} {hash : SfmfFileHash} (hf : Indexed E L f)
    (hsha : f.hash.hashtype = hashtypeSha1) (hwant : hash.hashtype = hashtypeSha1) :
    carries E L.toDisk hash f = true ↔ hash = f.hash := by
  have hs : Stored f := by
    intro hs
    rw [hf.other hs] at hsha
    exact absurd hsha (by decide)
  obtain ⟨d, hd, -, hsize, hcase⟩ := hf.stored hs
  have hh : f.hash = hashOf E d := by
    rcases hcase with ⟨hlazy, -⟩ | hh
    · exact absurd (hsha.symm.trans hlazy) sha1_ne_lazy
    · exact hh
  obtain ⟨size, hashtype, digest⟩ := hash
  simp only [carries, decide_eq_true_iff, hd, Option.map_some, Option.some.injEq, hh, hashOf, SfmfFileHash.mk.injEq]
  constructor
  · rintro ⟨-, h1, h2⟩
    exact ⟨h1.symm, hwant, h2.symm⟩
  · rintro ⟨h1, -, h2⟩
    exact ⟨hs, h1.symm, h2.symm⟩

/-- Whether an entry carries a hash depends on its path and its size only. -/
theorem carries_congr {f f' : FileEntry} {hash : SfmfFileHash} (hname : f'.filename = f.filename) (hst : f'.st = f.st)
    (hsize : f'.hash.size = f.hash.size) : carries E L.toDisk hash f' = carries E L.toDisk hash f := by
  unfold carries contentOf
  rw [Bool.eq_iff_iff, decide_eq_true_iff, decide_eq_true_iff]
  simp only [Stored, skipsDuplicates, hname, hst, hsize]

/-- What a search of `list` for `hash` finds, and leaves as the index. -/
structure SearchOk (E : Env) (L : SourceTree) (hash : SfmfFileHash) (list list' : List FileEntry)
    (found : Option FileEntry) : Prop where
  indexed : ∀ f ∈ list', Indexed E L f
  found : ∀ f, found = some f → f ∈ list' ∧ hash.hashtype = hashtypeSha1 ∧ hash = f.hash ∧
    ∃ g, list.find? (carries E L.toDisk hash) = some g ∧ f.filename = g.filename ∧ f.st = g.st

/-- An entry that is passed over. -/
theorem SearchOk.pass {hash : SfmfFileHash} {f f' : FileEntry} {list list' : List FileEntry} {found : Option FileEntry}
    (h : SearchOk E L hash list list' found) (hf' : Indexed E L f') (hno : carries E L.toDisk hash f = false) :
    SearchOk E L hash (f :: list) (f' :: list') found := by
  refine ⟨List.forall_mem_cons.2 ⟨hf', h.indexed⟩, fun g hg => ?_⟩
  obtain ⟨hmem, hsha, hh, g', hfind, hname, hst⟩ := h.found g hg
  refine ⟨List.mem_cons_of_mem _ hmem, hsha, hh, g', ?_, hname, hst⟩
  rw [List.find?_cons, hno]
  exact hfind

/-- One entry of a search, with its calculation. -/
theorem searchLocal_eq {D : Disk} {hash : SfmfFileHash} (f : FileEntry) (list : List FileEntry) :
    searchLocal E D hash (f :: list) =
      if f.hash.size ≠ hash.size then searchLocal E D hash list >>= fun p => .ok (p.1, f :: p.2)
      else calculated E D f >>= fun f' =>
        cAssert (f'.hash.hashtype = hashtypeSha1) "entry->hash.hashtype == HASHTYPE_SHA1" >>= fun _ =>
          sfmfFilehashCompare hash f'.hash >>= fun same =>
            if same then .ok (some f', f' :: list)
            else searchLocal E D hash list >>= fun p => .ok (p.1, f' :: p.2) := by
  rw [searchLocal]
  by_cases hsize : f.hash.size ≠ hash.size
  · rw [if_pos hsize, if_pos hsize]
    rfl
  · rw [if_neg hsize, if_neg hsize]
    unfold calculated
    by_cases hlazy : f.hash.hashtype = hashtypeLazy
    · rw [if_pos hlazy, if_pos hlazy]
      rfl
    · rw [if_neg hlazy, if_neg hlazy]
      rfl

/-- **What a search does with one entry**: it passes it over by its size, finds it, or passes it over by its hash. -/
theorem searchLocal_cons {D : Disk} {hash : SfmfFileHash} {f : FileEntry} {list list' : List FileEntry}
    {found : Option FileEntry} (h : searchLocal E D hash (f :: list) = .ok (found, list')) :
    (f.hash.size ≠ hash.size ∧ ∃ rest, searchLocal E D hash list = .ok (found, rest) ∧ list' = f :: rest) ∨
    (f.hash.size = hash.size ∧ ∃ f', calculated E D f = .ok f' ∧ f'.hash.hashtype = hashtypeSha1 ∧
      hash.hashtype = hashtypeSha1 ∧ ((hash = f'.hash ∧ found = some f' ∧ list' = f' :: list) ∨
        (hash ≠ f'.hash ∧ ∃ rest, searchLocal E D hash list = .ok (found, rest) ∧ list' = f' :: rest))) := by
  rw [searchLocal_eq] at h
  by_cases hsize : f.hash.size ≠ hash.size
  · rw [if_pos hsize] at h
    obtain ⟨⟨found', rest⟩, hrest, h⟩ := bind_ok.1 h
    cases h
    exact .inl ⟨hsize, rest, hrest, rfl⟩
  · rw [if_neg hsize] at h
    simp only [bind_ok, cAssert_ok, exists_const] at h
    obtain ⟨f', hcalc, hsha, same, hsame, h⟩ := h
    obtain ⟨hwant, -, rfl⟩ := sfmfFilehashCompare_ok.1 hsame
    refine .inr ⟨not_not.1 hsize, f', hcalc, hsha, hwant, ?_⟩
    by_cases hh : hash = f'.hash
    · rw [decide_eq_true hh, if_pos rfl] at h
      cases h
      exact .inl ⟨hh, rfl, rfl⟩
    · rw [decide_eq_false hh, if_neg (by decide)] at h
      obtain ⟨⟨found', rest⟩, hrest, h⟩ := bind_ok.1 h
      cases h
      exact .inr ⟨hh, rest, hrest, rfl⟩

/-- **A search finds the first entry that carries the wanted hash**, and keeps the index. -/
theorem searchLocal_ok {hash : SfmfFileHash} : ∀ {list list' : List FileEntry} {found : Option FileEntry},
    searchLocal E L.toDisk hash list = .ok (found, list') → (∀ f ∈ list, Indexed E L f) →
    SearchOk E L hash list list' found := by
  intro list
  induction list with
  | nil =>
    intro list' found h _
    cases h
    exact ⟨by simp, fun f hf => by cases hf⟩
  | cons f list ih =>
    intro list' found h hl
    have hf := hl f List.mem_cons_self
    have hrest : ∀ g ∈ list, Indexed E L g := fun g hg => hl g (List.mem_cons_of_mem _ hg)
    rcases searchLocal_cons h with ⟨hsize, rest, hsearch, rfl⟩ | ⟨_, f', hcalc, hsha, hwant, hcase⟩
    · exact (ih hsearch hrest).pass hf (by simp [carries, hsize])
    obtain ⟨hf', hname, hst, hsize⟩ := calculated_indexed hcalc hf
    have hcarry : carries E L.toDisk hash f = true ↔ hash = f'.hash := by
      rw [← carries_congr hname hst hsize]
      exact hf'.carries_iff hsha hwant
    rcases hcase with ⟨hh, rfl, rfl⟩ | ⟨hh, rest, hsearch, rfl⟩
    · refine ⟨List.forall_mem_cons.2 ⟨hf', hrest⟩, fun g hg => ?_⟩
      cases hg
      refine ⟨List.mem_cons_self, hwant, hh, f, ?_, hname, hst⟩
      rw [List.find?_cons, hcarry.2 hh]
    · exact (ih hsearch hrest).pass hf' (by rw [← Bool.not_eq_true]; exact mt hcarry.1 hh)

/-- What `search_blob_hash` answers of local files. -/
theorem searchBlobHash_local {m : Manifest} {hash : SfmfFileHash} {list list' : List FileEntry} {r : BlobResult}
    (h : searchBlobHash E L.toDisk m hash list = .ok (r, list')) (hl : ∀ f ∈ list, Indexed E L f) :
    (∀ f ∈ list', Indexed E L f) ∧ ∀ f, r = .localFile f → SearchOk E L hash list list' (some f) := by
  simp only [searchBlobHash, bind_ok] at h
  obtain ⟨found, -, h⟩ := h
  cases found with
  | some b =>
    cases h
    exact ⟨hl, fun f hf => by cases hf⟩
  | none =>
    simp only [bind_ok] at h
    obtain ⟨⟨found, list₁⟩, hsearch, h⟩ := h
    have hok := searchLocal_ok hsearch hl
    cases found with
    | some f =>
      cases h
      refine ⟨hok.indexed, fun g hg => ?_⟩
      cases hg
      exact hok
    | none =>
      simp only [bind_ok] at h
      obtain ⟨pack, -, h⟩ := h
      cases pack with
      | some p => cases h; exact ⟨hok.indexed, fun f hf => by cases hf⟩
      | none => cases h; exact ⟨hok.indexed, fun f hf => by cases hf⟩

/-- Every entry of an index is right. -/
theorem LocalIndex.indexed {list : List FileEntry} (h : LocalIndex E L list) : ∀ f ∈ list, Indexed E L f := by
  induction h with
  | built h =>
    exact foldlM_inv (fun list : List FileEntry => ∀ f ∈ list, Indexed E L f)
      (fun _ _ _ _ hs hstep => extendFileList_indexed hstep hs) (by simp) h
  | searched _ h ih => exact (searchBlobHash_local h ih).1

/-! ## The copy -/

/-- **The copy is right**: what is read through the path of the entry has the length and the SHA-1 of the
wanted hash, and passes the check of the file that is written. -/
def CopiesRight (E : Env) (L : Disk) (hash : SfmfFileHash) (f : FileEntry) : Prop :=
  ∃ d, L.fopen f.filename = some d ∧ d.length = hash.size.toNat ∧ E.sha1 d = hash.hash ∧
    (convertFileZsizeHash E d .zero false >>= fun p => sfmfFilehashCompare p.1 hash) = .ok true

/-- An entry through which its content can be read: a regular file that is not too large, or a symlink that leads
to the wanted bytes. -/
def Readable (E : Env) (L : Disk) (hash : SfmfFileHash) (g : FileEntry) : Prop :=
  (sIsreg g.st.stMode ∧ g.st.stSize < 2 ^ 32) ∨
    (sIslnk g.st.stMode ∧ ∃ d, L.fopen g.filename = some d ∧ d.length = hash.size.toNat ∧ E.sha1 d = hash.hash)

/-- A file of the wanted length and SHA-1 passes the check. -/
theorem check_passes {hash : SfmfFileHash} {d : Bytes} (hsha : hash.hashtype = hashtypeSha1)
    (hlen : d.length = hash.size.toNat) (hd : E.sha1 d = hash.hash) :
    (convertFileZsizeHash E d .zero false >>= fun p => sfmfFilehashCompare p.1 hash) = .ok true := by
  rw [convertFileZsizeHash_eq, if_neg (by decide), ok_bind, sfmfFilehashCompare_eq rfl hsha]
  have heq : (⟨UInt32.ofNat d.length, hashtypeSha1, E.sha1 d⟩ : SfmfFileHash) = hash := by
    obtain ⟨size, hashtype, digest⟩ := hash
    simp only at hsha hlen hd
    rw [hlen, hsha, hd, UInt32.ofNat_toNat]
  rw [decide_eq_true heq]

/-- **When a local match can be used.** For every index of local files and every wanted hash: if
`search_blob_hash` answers with a local file, then copying it gives the wanted content if and only if the
first entry of the index that carries the hash is a regular file below 4 GiB, or a symlink that leads to
such content. -/
theorem local_match_iff {m : Manifest} {hash : SfmfFileHash} {list list' : List FileEntry} {f : FileEntry}
    (hi : LocalIndex E L list) (h : searchBlobHash E L.toDisk m hash list = .ok (.localFile f, list')) :
    CopiesRight E L.toDisk hash f ↔
      ∀ g, list.find? (carries E L.toDisk hash) = some g → Readable E L.toDisk hash g := by
  obtain ⟨-, hsha, -, g, hfind, hname, hst⟩ := ((searchBlobHash_local h hi.indexed).2 f rfl).found f rfl
  have hg := hi.indexed g (List.mem_of_find?_eq_some hfind)
  have hcarry : carries E L.toDisk hash g = true := List.find?_some hfind
  obtain ⟨hs, hsize, hdigest⟩ := of_decide_eq_true hcarry
  obtain ⟨d, hd, hlen, hdsize, -⟩ := hg.stored hs
  rw [hd, Option.map_some, Option.some.injEq] at hdigest
  have hkind : sIsreg g.st.stMode ∨ sIslnk g.st.stMode := by
    by_contra hno
    exact hs (.inr hno)
  constructor
  · rintro ⟨d', hopen, hlen', hd', -⟩ g' hg'
    rw [hfind, Option.some.injEq] at hg'
    subst hg'
    rcases hkind with hreg | hlnk
    · -- the length of the file is a 32-bit number
      have hopen' : L.fopen g.filename = some d := (if_neg (sIsreg_not_sIslnk hreg)).symm.trans hd
      rw [hname, hopen', Option.some.injEq] at hopen
      subst hopen
      refine .inl ⟨hreg, ?_⟩
      rw [← hlen, hlen']
      exact hash.size.toNat_lt
    · exact .inr ⟨hlnk, d', hname ▸ hopen, hlen', hd'⟩
  · intro hread
    rcases hread g hfind with ⟨hreg, hlt⟩ | ⟨-, d', hopen, hlen', hd'⟩
    · have hopen : L.fopen g.filename = some d := (if_neg (sIsreg_not_sIslnk hreg)).symm.trans hd
      have hlen' : d.length = hash.size.toNat := by
        rw [← hsize, hdsize, ofNat_toNat_of_lt (by omega)]
      exact ⟨d, by rw [hname, hopen], hlen', hdigest, check_passes hsha hlen' hdigest⟩
    · exact ⟨d', by rw [hname, hopen], hlen', hd', check_passes hsha hlen' hd'⟩

/-! ## A symlink that carries the hash -/

/-- What `lstat` says of `d`, `d/a` and `d/l`. -/
def linkStat (p : CString) : Option Stat :=
  if p = letterDir then some ⟨1, 0o040755, 0, 0, 0, 64, 7⟩
  else if p = letterPath then some ⟨2, 0o100644, 0, 0, 0, 32, 7⟩
  else if p = letterLink then some ⟨5, 0o120777, 0, 0, 0, 1, 7⟩
  else none

/-- A local tree where `d/l` is a symlink to `a`, which has 32 letters. -/
def linkTree : SourceTree where
  lstat := linkStat
  readlink p := if p = letterLink then some [0x61] else none
  fopen p := if p = letterPath ∨ p = letterLink then some letters else none
  regular {p st} hst hr := by
    unfold linkStat at hst
    split at hst
    · cases hst
      exact absurd hr (by decide)
    split at hst
    · rename_i hp
      cases hst
      exact ⟨letters, if_pos (.inl hp), rfl⟩
    split at hst
    · cases hst
      exact absurd hr (by decide)
    · cases hst
  symlink {p st} hst hl := by
    unfold linkStat at hst
    split at hst
    · cases hst
      exact absurd hl (by decide)
    split at hst
    · cases hst
      exact absurd hl (by decide)
    split at hst
    · rename_i hp
      cases hst
      exact ⟨[0x61], if_pos hp, rfl, by decide, by decide, by decide⟩
    · cases hst

/-- The index of this tree. -/
def linkIndex : List FileEntry :=
  [⟨letterDir, ⟨1, 0o040755, 0, 0, 0, 64, 7⟩, 0, .zero, false, -1⟩,
    ⟨letterPath, ⟨2, 0o100644, 0, 0, 0, 32, 7⟩, 0, ⟨32, hashtypeLazy, SfmfFileHash.zero.hash⟩, false, -1⟩,
    ⟨letterLink, ⟨5, 0o120777, 0, 0, 0, 1, 7⟩, 0, ⟨1, hashtypeSha1, letterDigest⟩, false, -1⟩]

theorem linkIndex_built : LocalIndex letterTreeEnv linkTree linkIndex := by
  have h : [[letterDir, letterPath, letterLink]].foldlM (extendFileList letterTreeEnv linkTree.toDisk true .none) [] =
    .ok linkIndex := by decide +kernel
  exact .built h

/-- A manifest of which the search only finds that it includes nothing. -/
def emptyManifest : Manifest := ⟨⟨0, 0, 0, 0, 0, 0, 0⟩, [], [], [], [], [], []⟩

/-- The index after a search for the letters. -/
def linkIndexHashed : List FileEntry :=
  [⟨letterDir, ⟨1, 0o040755, 0, 0, 0, 64, 7⟩, 0, .zero, false, -1⟩, letterTreeFile,
    ⟨letterLink, ⟨5, 0o120777, 0, 0, 0, 1, 7⟩, 0, ⟨1, hashtypeSha1, letterDigest⟩, false, -1⟩]

theorem local_match_iff_letters : CopiesRight letterTreeEnv linkTree.toDisk ⟨32, hashtypeSha1, lettersDigest⟩ letterTreeFile ↔
    ∀ g, linkIndex.find? (carries letterTreeEnv linkTree.toDisk ⟨32, hashtypeSha1, lettersDigest⟩) = some g →
      Readable letterTreeEnv linkTree.toDisk ⟨32, hashtypeSha1, lettersDigest⟩ g := by
  have hsearch : searchBlobHash letterTreeEnv linkTree.toDisk emptyManifest ⟨32, hashtypeSha1, lettersDigest⟩ linkIndex =
      .ok (.localFile letterTreeFile, linkIndexHashed) := by decide +kernel
  exact local_match_iff linkIndex_built hsearch

/-- **A symlink whose target is the wanted content** is a match, but through it the file that it leads to is
copied. -/
theorem local_match_link : ¬ ∀ (E : Env) (L : SourceTree) (m : Manifest) (hash : SfmfFileHash)
    (list list' : List FileEntry) (f : FileEntry), LocalIndex E L list →
    searchBlobHash E L.toDisk m hash list = .ok (.localFile f, list') → CopiesRight E L.toDisk hash f := by
  intro h
  have hsearch : searchBlobHash letterTreeEnv linkTree.toDisk emptyManifest ⟨1, hashtypeSha1, letterDigest⟩ linkIndex =
      .ok (.localFile ⟨letterLink, ⟨5, 0o120777, 0, 0, 0, 1, 7⟩, 0, ⟨1, hashtypeSha1, letterDigest⟩, false, -1⟩,
        linkIndex) := by decide +kernel
  obtain ⟨d, hopen, hlen, -⟩ := h _ _ _ _ _ _ _ linkIndex_built hsearch
  have hletters : linkTree.toDisk.fopen letterLink = some letters := rfl
  rw [hletters, Option.some.injEq] at hopen
  subst hopen
  exact absurd hlen (by decide)

end Sfmf

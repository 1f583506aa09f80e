import Sfmf.Proof.Inodes
import Sfmf.Proof.Lookup
import Sfmf.Proof.StoredOnce

/-!
# References to other names of a file

`mark_duplicates` overwrites the reference of an entry at every later match, so each
refers to the last name in front of it, and the names of a file form a chain.

* `resolvableLinks`: where the chains go and where they end.
* `LinkSourcesExist`: what that means when the unpacker writes the entries in order.
* `hardlinks_resolvable`: both hold after `mark_duplicates` of a list from one file
  system.
-/

namespace Sfmf

/-! ## The names of a file -/

/-- A regular file that has a content. -/
def NonemptyRegular (f : FileEntry) : Prop := sIsreg f.st.stMode ∧ f.st.stSize ≠ 0

/-- **A list from one file system**: what has the same inode number is one file, of one type, size and hash. -/
def OneFileSystem (files : List FileEntry) : Prop := ∀ f ∈ files, ∀ g ∈ files, f.st.stIno = g.st.stIno →
  f.st.stSize = g.st.stSize ∧ f.st.stMode &&& sIfmt = g.st.stMode &&& sIfmt ∧ f.hash = g.hash

/-- The `i`-th entry is a nonempty regular file with the inode of `f`. -/
def NameOf (files : List FileEntry) (f : FileEntry) (i : ℕ) : Prop :=
  ∃ g, files[i]? = some g ∧ NonemptyRegular g ∧ g.st.stIno = f.st.stIno

/-- **Following the references** from the `k`-th entry ends at the `r`-th. -/
inductive Follows (files : List FileEntry) : ℕ → ℕ → Prop where
  | stop {k : ℕ} {f : FileEntry} : files[k]? = some f → f.hardlinkIndex = -1 → Follows files k k
  | next {k i r : ℕ} {f : FileEntry} : files[k]? = some f → f.hardlinkIndex = i → Follows files i r → Follows files k r

theorem NonemptyRegular.stored {f : FileEntry} (h : NonemptyRegular f) : Stored f :=
  fun hskip => hskip.elim h.2 fun hn => hn (.inl h.1)

theorem OneFileSystem.marked {files files' : List FileEntry} (h : OneFileSystem files)
    (hsame : List.Forall₂ SameFile files files') : OneFileSystem files' := by
  have hback : ∀ f' ∈ files', ∃ f ∈ files, SameFile f f' := by
    intro f' hf'
    obtain ⟨i, hi, rfl⟩ := List.getElem_of_mem hf'
    have hi' : i < files.length := hsame.length_eq ▸ hi
    exact ⟨files[i], List.getElem_mem hi', hsame.get hi' hi⟩
  intro f' hf' g' hg' hino
  obtain ⟨f, hf, _, _, rfl⟩ := hback f' hf'
  obtain ⟨g, hg, _, _, rfl⟩ := hback g' hg'
  exact h f hf g hg hino

section

variable {files : List FileEntry} (hone : OneFileSystem files)

include hone

/-- In a list from one file system, the inode tells the names of a file. -/
theorem linkOf_iff {f : FileEntry} (hf : f ∈ files) (hreg : NonemptyRegular f) {i : ℕ} {g : FileEntry}
    (hg : files[i]? = some g) : LinkOf g f ↔ NameOf files f i := by
  constructor
  · rintro ⟨_, _, _, hino⟩
    obtain ⟨hsize, htype, _⟩ := hone g (List.mem_of_getElem? hg) f hf hino
    exact ⟨g, hg, ⟨htype.trans hreg.1, hsize ▸ hreg.2⟩, hino⟩
  · rintro ⟨g', hg', hreg', hino⟩
    rw [hg, Option.some.injEq] at hg'
    subst hg'
    exact ⟨hreg'.stored, hreg.stored, (hone g (List.mem_of_getElem? hg) f hf hino).2.2, hino⟩

omit hone in
theorem NameOf.congr {f g : FileEntry} (h : g.st.stIno = f.st.stIno) {i : ℕ} : NameOf files g i ↔ NameOf files f i := by
  unfold NameOf
  rw [h]

omit hone in
theorem NonemptyRegular.nameOf {f : FileEntry} {k : ℕ} (hf : files[k]? = some f) (hreg : NonemptyRegular f) :
    NameOf files f k := ⟨f, hf, hreg, rfl⟩

/-- **References that can be followed.** -/
structure ResolvableLinks (files : List FileEntry) : Prop where
  /-- a reference is to the last name in front, and its entry is marked -/
  refers : ∀ (k : ℕ) (f : FileEntry), files[k]? = some f → 0 ≤ f.hardlinkIndex → f.duplicate = true ∧
    NonemptyRegular f ∧ ∃ i : ℕ, f.hardlinkIndex = i ∧ i < k ∧ NameOf files f i ∧ ∀ l, i < l → l < k → ¬ NameOf files f l
  /-- from each name, they lead to the first one, which is written as a file -/
  ends : ∀ (k : ℕ) (f : FileEntry), files[k]? = some f → NonemptyRegular f → ∃ r g, Follows files k r ∧
    NameOf files f r ∧ (∀ l < r, ¬ NameOf files f l) ∧ files[r]? = some g ∧ g.hardlinkIndex = -1 ∧
    manifestEntryType g = .ok entryFile
  /-- and to no other -/
  unique : ∀ k r r', Follows files k r → Follows files k r' → r = r'
  /-- two names lead to the same one exactly if they are names of one file -/
  same : ∀ (k l r s : ℕ) (f g : FileEntry), files[k]? = some f → files[l]? = some g → NonemptyRegular f →
    NonemptyRegular g → Follows files k r → Follows files l s → (r = s ↔ f.st.stIno = g.st.stIno)

omit hone in
theorem Follows.unique {k r r' : ℕ} (h : Follows files k r) (h' : Follows files k r') : r = r' := by
  induction h with
  | stop hf hn =>
    cases h' with
    | stop _ _ => rfl
    | next hf' hi _ =>
      rw [hf, Option.some.injEq] at hf'
      rw [← hf', hn] at hi
      omega
  | next hf hi _ ih =>
    cases h' with
    | stop hf' hn =>
      rw [hf, Option.some.injEq] at hf'
      rw [← hf', hi] at hn
      omega
    | next hf' hi' h' =>
      rw [hf, Option.some.injEq] at hf'
      rw [← hf', hi, Nat.cast_inj] at hi'
      exact ih (hi' ▸ h')

variable (hdedup : Deduplicated files)
  (hlast : ∀ (i : ℕ) (f : FileEntry), files[i]? = some f → LastLink files i i f f.hardlinkIndex)

include hlast

/-- The entry without a reference is the first name. -/
theorem nameOf_first {k : ℕ} {f : FileEntry} (hf : files[k]? = some f) (hreg : NonemptyRegular f)
    (hn : f.hardlinkIndex = -1) : ∀ l < k, ¬ NameOf files f l := by
  rintro l hl ⟨g, hg, hname⟩
  have hlink := (linkOf_iff hone (List.mem_of_getElem? hf) hreg hg).2 ⟨g, hg, hname⟩
  exact (hlast k f hf).none hn l hl hl g hg hlink

/-- The entry with a reference has one to the last name in front. -/
theorem nameOf_last {k : ℕ} {f : FileEntry} (hf : files[k]? = some f) (hn : f.hardlinkIndex ≠ -1) :
    NonemptyRegular f ∧ ∃ i : ℕ, f.hardlinkIndex = i ∧ i < k ∧ (∃ g, files[i]? = some g ∧ LinkOf g f) ∧
      NameOf files f i ∧ ∀ l, i < l → l < k → ¬ NameOf files f l := by
  obtain ⟨i, hik, _, hidx, ⟨g, hg, hlink⟩, hmode, hafter⟩ := (hlast k f hf).some hn
  have hreg : NonemptyRegular f := ⟨hmode, fun h0 => hlink.2.1 (.inl h0)⟩
  have hmem := List.mem_of_getElem? hf
  refine ⟨hreg, i, hidx, hik, ⟨g, hg, hlink⟩, (linkOf_iff hone hmem hreg hg).1 hlink, fun l hil hlk hname => ?_⟩
  have ⟨g', hg', _⟩ := hname
  exact hafter l hlk hil hlk g' hg' ((linkOf_iff hone hmem hreg hg').2 hname)

/-- **The references from a name lead to the first name.** -/
theorem follows_first {k : ℕ} : ∀ {f : FileEntry}, files[k]? = some f → NonemptyRegular f → ∃ r g, Follows files k r ∧
    NameOf files f r ∧ (∀ l < r, ¬ NameOf files f l) ∧ files[r]? = some g ∧ g.hardlinkIndex = -1 ∧
    manifestEntryType g = .ok entryFile := by
  induction k using Nat.strongRecOn with
  | ind k ih =>
    intro f hf hreg
    by_cases hn : f.hardlinkIndex = -1
    · refine ⟨k, f, .stop hf hn, hreg.nameOf hf, nameOf_first hone hlast hf hreg hn, hf, hn, ?_⟩
      unfold manifestEntryType
      simp only
      rw [if_pos hreg.1, if_neg fun h => h.2 hn]
      rfl
    · -- the last name in front has the same names
      obtain ⟨_, i, hidx, hik, _, ⟨g, hg, hgreg, hino⟩, _⟩ := nameOf_last hone hlast hf hn
      obtain ⟨r, e, hfollows, hname, hfirst, hrest⟩ := ih i hik hg hgreg
      exact ⟨r, e, .next hf hidx hfollows, (NameOf.congr hino).1 hname, fun l hl h => hfirst l hl ((NameOf.congr hino).2 h),
        hrest⟩

include hdedup

/-- **The references of a list whose duplicates are marked can be followed.** -/
theorem resolvableLinks : ResolvableLinks files := by
  constructor
  case refers =>
    intro k f hf h0
    obtain ⟨hreg, i, hidx, hik, ⟨g, hg, hlink⟩, hname, hafter⟩ := nameOf_last hone hlast hf (by omega)
    have hdup := (hdedup.duplicate k f hf).2 ⟨i, hik, g, hg, hlink.1, hlink.2.1, hlink.2.2.1⟩
    exact ⟨hdup, hreg, i, hidx, hik, hname, hafter⟩
  case ends => exact fun k f hf hreg => follows_first hone hlast hf hreg
  case unique => exact fun k r r' h h' => h.unique h'
  case same =>
    intro k l r s f g hf hg hreg hreg' hr hs
    obtain ⟨r', e, hr', hname, hfirst, he, _⟩ := follows_first hone hlast hf hreg
    obtain ⟨s', e', hs', hname', hfirst', he', _⟩ := follows_first hone hlast hg hreg'
    obtain rfl := hr.unique hr'
    obtain rfl := hs.unique hs'
    constructor
    · rintro rfl
      obtain ⟨x, hx, _, hino⟩ := hname
      obtain ⟨y, hy, _, hino'⟩ := hname'
      rw [hx, Option.some.injEq] at hy
      rw [← hino, ← hino', hy]
    · intro hino
      -- the first name is one for both
      refine le_antisymm (not_lt.1 fun hlt => ?_) (not_lt.1 fun hlt => ?_)
      · exact hfirst s hlt ((NameOf.congr hino.symm).1 hname')
      · exact hfirst' r hlt ((NameOf.congr hino).1 hname)

end

/-! ## When the entries are written -/

/-- Each file gets an entry of the manifest. -/
theorem manifestEntries_each {inDir : CString} : ∀ {files : List FileEntry} {offset : UInt32} {entries : List SfmfFileEntry},
    manifestEntries inDir offset files = .ok entries →
    List.Forall₂ (fun f e => ∃ offset, manifestEntry offset f = .ok e) files entries := by
  intro files
  induction files with
  | nil => intro offset entries h; cases h; exact .nil
  | cons f files ih =>
    intro offset entries h
    simp only [manifestEntries, bind_ok, pure_eq_ok, Except.ok.injEq] at h
    obtain ⟨e, he, _, _, es, hes, rfl⟩ := h
    exact .cons ⟨offset, he⟩ (ih hes)

/-- The type of an entry, and the number of the entry that a hard link refers to. -/
theorem manifestEntry_link {offset : UInt32} {f : FileEntry} {e : SfmfFileEntry} (h : manifestEntry offset f = .ok e) :
    manifestEntryType f = .ok e.type ∧ ∀ i : ℕ, f.duplicate = true → f.hardlinkIndex = i → i < 2 ^ 32 → e.dev.toNat = i := by
  simp only [manifestEntry, bind_ok, pure_eq_ok, Except.ok.injEq] at h
  obtain ⟨type, htype, rfl⟩ := h
  refine ⟨htype, fun i hdup hidx hi => ?_⟩
  have hcond : f.duplicate = true ∧ f.hardlinkIndex ≠ -1 := ⟨hdup, by omega⟩
  have hmod : ((i : ℤ) % 2 ^ 32).toNat = i := by omega
  simp only [if_pos hcond]
  rw [hidx, UInt32.ofInt, hmod, ofNat_toNat_of_lt hi]

/-- **Every link source exists when the entries are written in order**: before the `j`-th entry, a hard link, is
written, the path that it links to has an inode, which is that of the entry of type `entryFile` that the references
lead to. -/
def LinkSourcesExist (files : List FileEntry) : Prop :=
  ∀ (Loc : Type) [DecidableEq Loc] (E : Env) (N : Naming Loc) (U : UnpackOptions) (inDir : CString) (m : Manifest)
    (ls ls' : List FileEntry) (us : List UnpackFileEntry) (d : Bytes) (cache : Dir) (fs fs' : FS Loc) (j : ℕ)
    (u : UnpackFileEntry), files.length < 2 ^ 32 → manifestEntries inDir 0 files = .ok m.fentries →
    classifyEntries E U m ls m.fentries = .ok (us, ls') →
    (us.take j).foldlM (unpackWriteEntry E N U d m cache) fs = .ok fs' → us[j]? = some u →
    u.entry.type = entryHardlink →
    u.entry.dev.toNat < j ∧ ∃ source name r v a, m.fentries[u.entry.dev.toNat]? = some source ∧
      m.filenameAt source.filenameOffset = .ok name ∧ Follows files j r ∧ us[r]? = some v ∧ v.entry.type = entryFile ∧
      fs'.ent (N.resolve (U.outputdir ++ name)) = some a ∧ fs'.ent (N.resolve v.targetFilename) = some a

theorem linkSourcesExist {files : List FileEntry} (hlinks : ResolvableLinks files)
    (hreg : ∀ (k : ℕ) (f : FileEntry), files[k]? = some f → f.hardlinkIndex ≠ -1 → 0 ≤ f.hardlinkIndex) :
    LinkSourcesExist files := by
  intro Loc _ E N U inDir m ls ls' us d cache fs fs' j u hlen hentries hclassify hrun hu hlink
  have hclass := classifyEntries_ok hclassify
  have heach := manifestEntries_each hentries
  -- what an entry says of its file
  have hentry : ∀ (k : ℕ) (w : UnpackFileEntry), us[k]? = some w → ∃ f, files[k]? = some f ∧
      manifestEntryType f = .ok w.entry.type ∧
      ∀ i : ℕ, f.duplicate = true → f.hardlinkIndex = i → i < 2 ^ 32 → w.entry.dev.toNat = i := by
    intro k w hw
    obtain ⟨hk, rfl⟩ := List.getElem?_eq_some_iff.1 hw
    have hkm : k < m.fentries.length := hclass.length_eq ▸ hk
    have hkf : k < files.length := heach.length_eq ▸ hkm
    obtain ⟨offset, he⟩ := heach.get hkf hkm
    have heq : us[k].entry = m.fentries[k] := (hclass.get hkm hk).entry
    rw [heq]
    exact ⟨files[k], List.getElem?_eq_getElem hkf, manifestEntry_link he⟩
  -- a reference of a file is that of its entry
  have hrefers : ∀ (k : ℕ) (f : FileEntry) (w : UnpackFileEntry), files[k]? = some f → us[k]? = some w →
      0 ≤ f.hardlinkIndex → w.entry.type = entryHardlink ∧ f.hardlinkIndex = w.entry.dev.toNat ∧ w.entry.dev.toNat < k ∧
        NonemptyRegular f := by
    intro k f w hf hw h0
    obtain ⟨f', hf', htype, hdev⟩ := hentry k w hw
    rw [hf, Option.some.injEq] at hf'
    subst hf'
    obtain ⟨hdup, hreg, i, hidx, hik, _⟩ := hlinks.refers k f hf h0
    have hk : k < files.length := (List.getElem?_eq_some_iff.1 hf).1
    have hd := hdev i hdup hidx (by omega)
    exact ⟨(manifestEntryType_hardlink htype).2 ⟨hreg.1, hdup, by omega⟩, by omega, by omega, hreg⟩
  have htargets := EntryClassified.linkTargets hclass
  have hwritten := writeEntries_linked hrun htargets
  have htake : ∀ {k : ℕ} {w : UnpackFileEntry}, k < j → us[k]? = some w → w ∈ us.take j := fun hk hw =>
    List.mem_of_getElem? (by rw [List.getElem?_take_of_lt hk, hw])
  -- the inode is handed on along the references
  have hchain : ∀ {k r : ℕ}, Follows files k r → k < j → ∀ {w : UnpackFileEntry} {a : ℕ}, us[k]? = some w →
      fs'.ent (N.resolve w.targetFilename) = some a →
      ∃ v, us[r]? = some v ∧ fs'.ent (N.resolve v.targetFilename) = some a := by
    intro k r h
    induction h with
    | stop _ _ => exact fun _ _ _ hw ha => ⟨_, hw, ha⟩
    | next hf hi _ ih =>
      intro hk w a hw ha
      obtain ⟨ht, hdev, hdk, _⟩ := hrefers _ _ w hf hw (by omega)
      obtain ⟨a', ha', hsource⟩ := hwritten w (htake hk hw)
      obtain ⟨v, hv, hva⟩ := hsource ht
      rw [ha, Option.some.injEq] at ha'
      subst ha'
      rw [hi, Nat.cast_inj] at hdev
      exact ih (by omega) (hdev ▸ hv) hva
  obtain ⟨f, hf, htype, _⟩ := hentry j u hu
  have h0 := hreg j f hf ((manifestEntryType_hardlink htype).1 hlink).2.2
  obtain ⟨_, hidx, hdj, hname⟩ := hrefers j f u hf hu h0
  have hju : j < us.length := (List.getElem?_eq_some_iff.1 hu).1
  have hsm : u.entry.dev.toNat < m.fentries.length := by
    rw [hclass.length_eq]
    omega
  obtain ⟨name, hat, htarget⟩ := (hclass.get hsm (hclass.length_eq ▸ hsm)).target
  have hsource : us[u.entry.dev.toNat]? = some us[u.entry.dev.toNat] := List.getElem?_eq_getElem (hclass.length_eq ▸ hsm)
  obtain ⟨a, ha, _⟩ := hwritten _ (htake hdj hsource)
  obtain ⟨r, g, hfollows, _, _, hg, _, hfile⟩ := hlinks.ends j f hf hname
  have hrest : Follows files u.entry.dev.toNat r := by
    cases hfollows with
    | stop hf' hn =>
      rw [hf, Option.some.injEq] at hf'
      subst hf'
      omega
    | next hf' hi hrest =>
      rw [hf, Option.some.injEq] at hf'
      subst hf'
      rw [hidx, Nat.cast_inj] at hi
      exact hi ▸ hrest
  obtain ⟨v, hv, hva⟩ := hchain hrest hdj hsource ha
  obtain ⟨g', hg', htype', _⟩ := hentry r v hv
  rw [hg, Option.some.injEq] at hg'
  rw [← hg', hfile, Except.ok.injEq] at htype'
  simp only [List.get_eq_getElem] at hat htarget
  exact ⟨hdj, m.fentries[u.entry.dev.toNat], name, r, v, a, List.getElem?_eq_getElem hsm, hat, hfollows, hv, htype'.symm,
    by rw [← htarget]; exact ha, hva⟩

/-- **Hard links can be followed and resolved**: after `mark_duplicates` of a list from one file system, without hard
links of symlinks. -/
theorem hardlinks_resolvable {files : List FileEntry} (hfresh : ∀ f ∈ files, Fresh f) (hone : OneFileSystem files)
    (hsym : NoLinkedSymlinks files) :
    (Hashed files → ∃ files', markDuplicates files = .ok files') ∧
    ∀ files', markDuplicates files = .ok files' → ResolvableLinks files' ∧ LinkSourcesExist files' := by
  refine ⟨markDuplicates_total hsym, fun files' hmarked => ?_⟩
  obtain ⟨hsame, hdedup⟩ := markDuplicates_ok hmarked hfresh
  have hlast := markDuplicates_links hmarked hfresh
  have hlinks := resolvableLinks (hone.marked hsame) hdedup hlast
  refine ⟨hlinks, linkSourcesExist hlinks fun k f hf hn => ?_⟩
  obtain ⟨i, _, _, hidx, _⟩ := (hlast k f hf).some hn
  omega

/-- Five names of two files with one content, that take turns. -/
def twoInodes : List FileEntry :=
  [2, 3, 2, 3, 2].map fun ino => { letterTreeFile with st := ⟨ino, 0o100644, 0, 0, 0, 32, 7⟩ }

theorem hardlinks_resolvable_twoInodes : ∃ files', markDuplicates twoInodes = .ok files' ∧
    files'.map (·.hardlinkIndex) = [-1, -1, 0, 1, 2] ∧ ResolvableLinks files' ∧ LinkSourcesExist files' := by
  have hsym : NoLinkedSymlinks twoInodes := by
    intro i j f g _ _ hg _ _ hl
    have hreg : ∀ g ∈ twoInodes, ¬ sIslnk g.st.stMode := by decide
    exact absurd hl (hreg g (List.mem_of_getElem? hg))
  have hfresh : ∀ f ∈ twoInodes, Fresh f := by unfold Fresh; decide
  have hone : OneFileSystem twoInodes := by unfold OneFileSystem; decide
  have hall := hardlinks_resolvable hfresh hone hsym
  obtain ⟨files', hmarked⟩ := hall.1 (by unfold Hashed; decide)
  have hindex : (markDuplicates twoInodes).passes (fun files' => files'.map (·.hardlinkIndex) = [-1, -1, 0, 1, 2]) = true := by
    decide
  rw [hmarked] at hindex
  exact ⟨files', hmarked, of_decide_eq_true hindex, hall.2 files' hmarked⟩

end Sfmf

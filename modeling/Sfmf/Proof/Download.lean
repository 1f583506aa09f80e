import Sfmf.Spec.Unpack
import Sfmf.Proof.Convert

/-!
# Downloads into the cache

* `checkCached_cases`: what the check of a cached file does.
* `downloadPayloadFile_cases`: what `download_payload_file` does with an expected hash.
* `download_repairs_iff`: a damaged file in the cache is replaced exactly if its
  check returns.
* `download_aborts`: a damaged compressed blob, where it does not.
-/

namespace Sfmf

variable (E : Env)

/-- A file with this content passes the check. -/
def Verifies (hash : SfmfFileHash) (z : Bool) (d : Bytes) : Prop := sfmfFilehashVerify E hash d z = .ok true

/-- **A content passes** if what its conversion puts out has the hash. -/
theorem verifies_iff {hash : SfmfFileHash} {z : Bool} {d : Bytes} : Verifies E hash z d ↔
    ∃ b, converted E (if z then .zuncompress else .none) d = .ok b ∧
      hash = ⟨UInt32.ofNat b.length, hashtypeSha1, E.sha1 b⟩ := by
  unfold Verifies
  rw [sfmfFilehashVerify_ok]
  constructor
  · rintro ⟨b, hb, _, hr⟩
    exact ⟨b, hb, (of_decide_eq_true hr.symm).symm⟩
  · rintro ⟨b, hb, rfl⟩
    exact ⟨b, hb, rfl, by simp⟩

/-! ## The names of payload files -/

theorem makePackFilename_ok {h : SfmfFileHash} {name : Bytes} : makePackFilename h = .ok name ↔
    h.hashtype = hashtypeSha1 ∧ name = h.hash.val.flatMap hexByte ++ str ['.', 'p', 'a', 'c', 'k'] := by
  simp only [makePackFilename, bind_ok, sfmfFilehashFormat_ok, pure_eq_ok, Except.ok.injEq]
  constructor
  · rintro ⟨_, ⟨ht, rfl⟩, rfl⟩; exact ⟨ht, rfl⟩
  · rintro ⟨ht, rfl⟩; exact ⟨_, ⟨ht, rfl⟩, rfl⟩

theorem makeBlobFilename_ok {h : SfmfFileHash} {name : Bytes} : makeBlobFilename h = .ok name ↔
    h.hashtype = hashtypeSha1 ∧ name = h.hash.val.flatMap hexByte ++ str ['.', 'b', 'l', 'o', 'b'] := by
  simp only [makeBlobFilename, bind_ok, sfmfFilehashFormat_ok, pure_eq_ok, Except.ok.injEq]
  constructor
  · rintro ⟨_, ⟨ht, rfl⟩, rfl⟩; exact ⟨ht, rfl⟩
  · rintro ⟨ht, rfl⟩; exact ⟨_, ⟨ht, rfl⟩, rfl⟩

/-- **The name of a pack determines its SHA-1.** -/
theorem packFilename_inj {h h' : SfmfFileHash} {name : Bytes} (hn : makePackFilename h = .ok name)
    (hn' : makePackFilename h' = .ok name) : h.hash = h'.hash := by
  obtain ⟨_, rfl⟩ := makePackFilename_ok.1 hn
  obtain ⟨_, he⟩ := makePackFilename_ok.1 hn'
  exact Subtype.ext (hex_inj (List.append_inj_left' he rfl))

/-- **The name of a full blob determines its SHA-1.** -/
theorem blobFilename_inj {h h' : SfmfFileHash} {name : Bytes} (hn : makeBlobFilename h = .ok name)
    (hn' : makeBlobFilename h' = .ok name) : h.hash = h'.hash := by
  obtain ⟨_, rfl⟩ := makeBlobFilename_ok.1 hn
  obtain ⟨_, he⟩ := makeBlobFilename_ok.1 hn'
  exact Subtype.ext (hex_inj (List.append_inj_left' he rfl))

-- the three kinds of names end in different letters

theorem packFilename_last {h : SfmfFileHash} {name : Bytes} (hn : makePackFilename h = .ok name) :
    name.getLast? = some 0x6b := by
  obtain ⟨_, rfl⟩ := makePackFilename_ok.1 hn
  rw [List.getLast?_append_of_ne_nil _ (by decide)]
  decide

theorem blobFilename_last {h : SfmfFileHash} {name : Bytes} (hn : makeBlobFilename h = .ok name) :
    name.getLast? = some 0x62 := by
  obtain ⟨_, rfl⟩ := makeBlobFilename_ok.1 hn
  rw [List.getLast?_append_of_ne_nil _ (by decide)]
  decide

theorem packFilename_ne_blob {h h' : SfmfFileHash} {name : Bytes} (hn : makePackFilename h = .ok name) :
    makeBlobFilename h' ≠ .ok name := by
  intro hn'
  have hlast := packFilename_last hn
  rw [blobFilename_last hn'] at hlast
  exact absurd hlast (by decide)

theorem packFilename_ne_manifest {h : SfmfFileHash} {name : Bytes} (hn : makePackFilename h = .ok name) :
    name ≠ manifestFilename := by
  rintro rfl
  exact absurd (packFilename_last hn) (by decide)

theorem blobFilename_ne_manifest {h : SfmfFileHash} {name : Bytes} (hn : makeBlobFilename h = .ok name) :
    name ≠ manifestFilename := by
  rintro rfl
  exact absurd (blobFilename_last hn) (by decide)

-- and none is that of the temporary file

theorem packFilename_ne_tmp {h : SfmfFileHash} {name : Bytes} (hn : makePackFilename h = .ok name) :
    name ≠ packTmpFilename := by
  rintro rfl
  exact absurd (packFilename_last hn) (by decide)

theorem blobFilename_ne_tmp {h : SfmfFileHash} {name : Bytes} (hn : makeBlobFilename h = .ok name) :
    name ≠ packTmpFilename := by
  rintro rfl
  exact absurd (blobFilename_last hn) (by decide)

theorem manifestFilename_ne_tmp : manifestFilename ≠ packTmpFilename := by decide

variable {E} {source : PayloadSource} {filename : Bytes} {hash : SfmfFileHash} {z : Bool} {s s' : CacheState}

/-! ## One call -/

/-- **The check of a file that is cached**: it was verified before, or it verifies now, or it is
deleted. -/
theorem checkCached_cases (h : checkCached E filename (some hash) z s = .ok s') :
    (s.cache filename = none ∧ s' = s) ∨
    ∃ d, s.cache filename = some d ∧
      ((filename ∈ s.cachedFiles ∧ s' = s) ∨
        (filename ∉ s.cachedFiles ∧ Verifies E hash z d ∧
          s' = { s with cachedFiles := s.cachedFiles ++ [filename] }) ∨
        (filename ∉ s.cachedFiles ∧ sfmfFilehashVerify E hash d z = .ok false ∧
          s' = { s with cache := s.cache.unlink filename })) := by
  unfold checkCached at h
  cases hc : s.cache filename with
  | none =>
    simp only [hc] at h
    cases h
    exact .inl ⟨rfl, rfl⟩
  | some d =>
    refine .inr ⟨d, rfl, ?_⟩
    simp only [hc] at h
    by_cases hm : filename ∈ s.cachedFiles
    · rw [if_pos hm] at h
      cases h
      exact .inl ⟨hm, rfl⟩
    · rw [if_neg hm] at h
      simp only [bind_ok] at h
      obtain ⟨r, hr, h⟩ := h
      cases r with
      | true => cases h; exact .inr (.inl ⟨hm, hr, rfl⟩)
      | false => cases h; exact .inr (.inr ⟨hm, hr, rfl⟩)

/-- **A download that is needed**: the file is fetched and verifies, or there is no file. -/
theorem downloadMissing_cases {offline : Bool} {file : Option Bytes}
    (h : downloadMissing E source offline filename (some hash) z s = .ok (file, s')) :
    offline = false ∧ ∃ d, fetch E source filename = .ok d ∧
      ((Verifies E hash z d ∧ file = some filename ∧
        s' = ⟨s.cache.write filename d, s.cachedFiles ++ [filename], s.downloads ++ [filename]⟩) ∨ file = none) := by
  unfold downloadMissing at h
  cases offline with
  | true => simp at h
  | false =>
    simp only [Bool.false_eq_true, if_false, bind_ok] at h
    obtain ⟨d, hd, r, hr, h⟩ := h
    refine ⟨rfl, d, hd, ?_⟩
    cases r with
    | true =>
      simp only [if_true, pure_eq_ok, Except.ok.injEq, Prod.mk.injEq] at h
      exact .inl ⟨hr, h.1.symm, h.2.symm⟩
    | false =>
      simp only [Bool.false_eq_true, if_false, pure_eq_ok, Except.ok.injEq, Prod.mk.injEq] at h
      exact .inr h.1.symm

theorem downloadMissing_ok {d : Bytes} (hd : fetch E source filename = .ok d) (hv : Verifies E hash z d) :
    downloadMissing E source false filename (some hash) z s = .ok (some filename,
      ⟨s.cache.write filename d, s.cachedFiles ++ [filename], s.downloads ++ [filename]⟩) := by
  have hv' : sfmfFilehashVerify E hash d z = .ok true := hv
  simp [downloadMissing, hd, hv']

/-- **A successful call of `download_payload_file`**: the file was cached, and was verified before or
verifies; or it is fetched, and verifies. -/
theorem downloadPayloadFile_cases {offline : Bool}
    (h : downloadPayloadFile E source offline filename (some hash) z s = .ok (some filename, s')) :
    (filename ∈ s.cachedFiles ∧ (∃ d, s.cache filename = some d) ∧ s' = s) ∨
    (filename ∉ s.cachedFiles ∧ ∃ d, s.cache filename = some d ∧ Verifies E hash z d ∧
      s' = { s with cachedFiles := s.cachedFiles ++ [filename] }) ∨
    ((s.cache filename = none ∨ (filename ∉ s.cachedFiles ∧ ∃ d, s.cache filename = some d ∧
        sfmfFilehashVerify E hash d z = .ok false)) ∧
      offline = false ∧ ∃ d, fetch E source filename = .ok d ∧ Verifies E hash z d ∧
        s' = ⟨s.cache.write filename d, s.cachedFiles ++ [filename], s.downloads ++ [filename]⟩) := by
  unfold downloadPayloadFile at h
  simp only [bind_ok] at h
  obtain ⟨t, ht, h⟩ := h
  rcases checkCached_cases ht with ⟨hn, rfl⟩ | ⟨d, hd, hcase⟩
  · simp only [hn] at h
    obtain ⟨hoff, d, hd, hcase⟩ := downloadMissing_cases h
    rcases hcase with ⟨hv, _, hs⟩ | hnone
    · exact .inr (.inr ⟨.inl hn, hoff, d, hd, hv, hs⟩)
    · cases hnone
  rcases hcase with ⟨hm, rfl⟩ | ⟨hm, hv, rfl⟩ | ⟨hm, hv, rfl⟩
  · simp only [hd, pure_eq_ok, Except.ok.injEq, Prod.mk.injEq, true_and] at h
    exact .inl ⟨hm, ⟨d, hd⟩, h.symm⟩
  · simp only [hd, pure_eq_ok, Except.ok.injEq, Prod.mk.injEq, true_and] at h
    exact .inr (.inl ⟨hm, d, hd, hv, h.symm⟩)
  · have hgone : s.cache.unlink filename filename = none := by simp [Dir.unlink]
    simp only [hgone] at h
    obtain ⟨hoff, c, hc, hcase⟩ := downloadMissing_cases h
    rcases hcase with ⟨hv', _, hs⟩ | hnone
    · refine .inr (.inr ⟨.inr ⟨hm, d, hd, hv⟩, hoff, c, hc, hv', ?_⟩)
      rw [hs]
      congr 1
      funext n
      simp only [Dir.write, Dir.unlink]
      split <;> rfl
    · cases hnone

/-- A call for a file that is right in the cache, or not there and delivered. -/
theorem downloadPayloadFile_right {d : Bytes} (hd : fetch E source filename = .ok d) (hv : Verifies E hash z d)
    (hright : ∀ d', s.cache filename = some d' → d' = d) :
    ∃ s', downloadPayloadFile E source false filename (some hash) z s = .ok (some filename, s') ∧
      ((s.cache filename = some d ∧ s'.cache = s.cache ∧ s'.downloads = s.downloads) ∨
        (s.cache filename = none ∧ s'.cache = s.cache.write filename d ∧
          s'.downloads = s.downloads ++ [filename])) := by
  cases hc : s.cache filename with
  | none =>
    refine ⟨⟨s.cache.write filename d, s.cachedFiles ++ [filename], s.downloads ++ [filename]⟩, ?_,
      .inr ⟨rfl, rfl, rfl⟩⟩
    simp only [downloadPayloadFile, checkCached, hc, pure_eq_ok, ok_bind]
    exact downloadMissing_ok hd hv
  | some d' =>
    have hdd := hright d' hc
    subst hdd
    have hv' : sfmfFilehashVerify E hash d' z = .ok true := hv
    by_cases hm : filename ∈ s.cachedFiles
    · exact ⟨s, by simp [downloadPayloadFile, checkCached, hc, hm], .inl ⟨rfl, rfl, rfl⟩⟩
    · refine ⟨{ s with cachedFiles := s.cachedFiles ++ [filename] }, ?_, .inl ⟨rfl, rfl, rfl⟩⟩
      simp [downloadPayloadFile, checkCached, hc, hm, hv']

/-! ## The requirements of the entries -/

/-- An entry that needs a payload file. -/
def Needs (u : UnpackFileEntry) : Prop :=
  u.entry.type = entryFile ∧ ((∃ pack, u.blobResult = .packed pack) ∨ u.blobResult = .full)

/-- The payload file an entry needs: its name, the hash it must have, and whether it is compressed. -/
def Requires (u : UnpackFileEntry) (name : Bytes) (hash : SfmfFileHash) (z : Bool) : Prop :=
  u.entry.type = entryFile ∧
    ((∃ pack, u.blobResult = .packed pack ∧ makePackFilename pack.hash = .ok name ∧ hash = pack.hash ∧ z = false) ∨
      (u.blobResult = .full ∧ makeBlobFilename u.entry.hash = .ok name ∧ hash = u.entry.hash ∧ z = isCompressed u.entry))

theorem Requires.needs {u : UnpackFileEntry} (h : Requires u filename hash z) : Needs u :=
  ⟨h.1, h.2.imp (fun ⟨pack, hp, _⟩ => ⟨pack, hp⟩) And.left⟩

theorem Requires.name_inj {u : UnpackFileEntry} {name' : Bytes} {hash' : SfmfFileHash} {z' : Bool}
    (h : Requires u filename hash z) (h' : Requires u name' hash' z') : name' = filename := by
  rcases h.2 with ⟨pack, hp, hn, _⟩ | ⟨hf, hn, _⟩ <;> rcases h'.2 with ⟨pack', hp', hn', _⟩ | ⟨hf', hn', _⟩
  · rw [hp] at hp'
    cases hp'
    exact Except.ok.inj (hn'.symm.trans hn)
  · rw [hp] at hf'; cases hf'
  · rw [hf] at hp'; cases hp'
  · exact Except.ok.inj (hn'.symm.trans hn)

variable {U : UnpackOptions}

theorem unpackDownloadRequirements_none {u : UnpackFileEntry} (h : ¬ Needs u) :
    unpackDownloadRequirements E U s u = .ok s := by
  unfold unpackDownloadRequirements
  by_cases ht : u.entry.type = entryFile
  · rw [if_pos ht]
    cases hr : u.blobResult with
    | packed pack => exact absurd ⟨ht, .inl ⟨pack, hr⟩⟩ h
    | full => exact absurd ⟨ht, .inr hr⟩ h
    | _ => rfl
  · rw [if_neg ht]
    rfl

/-- **The requirement of an entry** is a call of `download_payload_file` that gives a file. -/
theorem unpackDownloadRequirements_iff {u : UnpackFileEntry} (h : Requires u filename hash z) :
    unpackDownloadRequirements E U s u = .ok s' ↔
      downloadPayloadFile E U.source U.offlineMode filename (some hash) z s = .ok (some filename, s') := by
  -- a file that is given is the one that was asked for
  have hname : ∀ {file : Option Bytes} {t : CacheState},
      downloadPayloadFile E U.source U.offlineMode filename (some hash) z s = .ok (file, t) → file.isSome →
        file = some filename := by
    intro file t hf hsome
    simp only [downloadPayloadFile, bind_ok] at hf
    obtain ⟨t₁, _, hf⟩ := hf
    split at hf
    · simp only [pure_eq_ok, Except.ok.injEq, Prod.mk.injEq] at hf
      exact hf.1.symm
    · obtain ⟨_, d, _, ⟨_, hfile, _⟩ | hnone⟩ := downloadMissing_cases hf
      · exact hfile
      · rw [hnone] at hsome; cases hsome
  have hcall : ∀ text, (downloadPayloadFile E U.source U.offlineMode filename (some hash) z s >>= fun r =>
        cAssert (r.1.isSome) text >>= fun _ => pure r.2) = .ok s' ↔
      downloadPayloadFile E U.source U.offlineMode filename (some hash) z s = .ok (some filename, s') := by
    intro text
    simp only [bind_ok, cAssert_ok, exists_const, pure_eq_ok, Except.ok.injEq]
    constructor
    · rintro ⟨⟨file, t⟩, hf, hsome, rfl⟩
      rw [hf, hname hf hsome]
    · exact fun hf => ⟨_, hf, rfl, rfl⟩
  unfold unpackDownloadRequirements
  rw [if_pos h.1]
  rcases h.2 with ⟨pack, hp, hn, rfl, rfl⟩ | ⟨hf, hn, rfl, rfl⟩
  · simp only [hp, hn, ok_bind]
    exact hcall _
  · simp only [hf, hn, ok_bind]
    exact hcall _

/-- **What the downloads for some entries leave**: the files `l` were fetched, as `dir` has them. -/
structure Fetched (dir : Dir) (us : List UnpackFileEntry) (s s' : CacheState) (l : List Bytes) : Prop where
  nodup : l.Nodup
  downloads : s'.downloads = s.downloads ++ l
  mem : ∀ name, name ∈ l ↔ s.cache name = none ∧ ∃ u ∈ us, ∃ hash z, Requires u name hash z
  cache : ∀ name, s'.cache name = if name ∈ l then dir name else s.cache name

/-- An entry before them that requires nothing, or what is cached. -/
theorem Fetched.known {dir : Dir} {u : UnpackFileEntry} {us : List UnpackFileEntry} {s s₁ s' : CacheState}
    {l : List Bytes} (h : Fetched dir us s₁ s' l) (hcache : s₁.cache = s.cache) (hdown : s₁.downloads = s.downloads)
    (hu : ∀ name hash z, Requires u name hash z → s.cache name ≠ none) : Fetched dir (u :: us) s s' l := by
  refine ⟨h.nodup, by rw [h.downloads, hdown], fun name => ?_, by rw [← hcache]; exact h.cache⟩
  rw [h.mem, hcache]
  refine and_congr_right fun hnone => ⟨fun ⟨v, hv, hr⟩ => ⟨v, List.mem_cons_of_mem u hv, hr⟩, ?_⟩
  rintro ⟨v, hv, hash, z, hr⟩
  rcases List.mem_cons.1 hv with rfl | hv
  · exact absurd hnone (hu name hash z hr)
  · exact ⟨v, hv, hash, z, hr⟩

/-- An entry before them whose file is fetched: it is then cached for the others. -/
theorem Fetched.fetched {dir : Dir} {u : UnpackFileEntry} {us : List UnpackFileEntry} {s s₁ s' : CacheState}
    {l : List Bytes} {n d : Bytes} (h : Fetched dir us s₁ s' l) (hreq : Requires u n hash z) (habsent : s.cache n = none)
    (hdir : dir n = some d) (hcache : ∀ name, s₁.cache name = if name = n then some d else s.cache name)
    (hdown : s₁.downloads = s.downloads ++ [n]) : Fetched dir (u :: us) s s' (n :: l) := by
  have hn : n ∉ l := by
    intro hn
    have hnone := ((h.mem n).1 hn).1
    rw [hcache, if_pos rfl] at hnone
    cases hnone
  refine ⟨h.nodup.cons hn, by rw [h.downloads, hdown, List.append_assoc]; rfl, fun name => ?_, fun name => ?_⟩
  · rw [List.mem_cons, h.mem, hcache]
    constructor
    · rintro (rfl | ⟨hnone, v, hv, hr⟩)
      · exact ⟨habsent, u, List.mem_cons_self, hash, z, hreq⟩
      · split at hnone
        · cases hnone
        · exact ⟨hnone, v, List.mem_cons_of_mem u hv, hr⟩
    · rintro ⟨hnone, v, hv, hash', z', hr⟩
      by_cases he : name = n
      · exact .inl he
      · rw [if_neg he]
        rcases List.mem_cons.1 hv with rfl | hv
        · exact absurd (hreq.name_inj hr) he
        · exact .inr ⟨hnone, v, hv, hash', z', hr⟩
  · rw [h.cache, hcache]
    by_cases he : name = n
    · rw [he, if_neg hn, if_pos rfl, if_pos List.mem_cons_self, hdir]
    · simp only [List.mem_cons, he, false_or, if_false]

/-- **The downloads of a run.** If every entry's file is delivered and verifies, and what is cached is
right, then exactly the files are downloaded that are needed and not cached, each of them once. -/
theorem downloads_exact (hon : U.offlineMode = false) (dir : Dir) : ∀ {us : List UnpackFileEntry} {s : CacheState},
    (∀ u ∈ us, Needs u → ∃ name hash z d, Requires u name hash z ∧ dir name = some d ∧
      fetch E U.source name = .ok d ∧ Verifies E hash z d) →
    (∀ u ∈ us, ∀ name hash z d, Requires u name hash z → s.cache name = some d → dir name = some d) →
    ∃ s' l, us.foldlM (unpackDownloadRequirements E U) s = .ok s' ∧ Fetched dir us s s' l := by
  intro us
  induction us with
  | nil => intro s _ _; exact ⟨s, [], rfl, .nil, by simp, by simp, by simp⟩
  | cons u us ih =>
    intro s hneeds hright
    have hneeds' := fun v hv => hneeds v (List.mem_cons_of_mem u hv)
    have hright' := fun v hv => hright v (List.mem_cons_of_mem u hv)
    by_cases hu : Needs u
    case neg =>
      have hstep : unpackDownloadRequirements E U s u = .ok s := unpackDownloadRequirements_none hu
      obtain ⟨s', l, hrun, hl⟩ := ih hneeds' hright'
      refine ⟨s', l, by simp only [List.foldlM_cons, hstep, ok_bind, hrun], hl.known rfl rfl ?_⟩
      exact fun name hash z hr => absurd hr.needs hu
    obtain ⟨n, hash, z, d, hreq, hdir, hfetch, hv⟩ := hneeds u List.mem_cons_self hu
    obtain ⟨s₁, hcall, hcase⟩ := downloadPayloadFile_right (s := s) hfetch hv fun d' hd' =>
      Option.some.inj ((hright u List.mem_cons_self n hash z d' hreq hd').symm.trans hdir)
    have hstep : unpackDownloadRequirements E U s u = .ok s₁ := by
      rw [unpackDownloadRequirements_iff hreq, hon]
      exact hcall
    rcases hcase with ⟨hpresent, hcache, hdown⟩ | ⟨habsent, hcache, hdown⟩
    · -- the file is cached
      obtain ⟨s', l, hrun, hl⟩ := ih (s := s₁) hneeds' (by rw [hcache]; exact hright')
      refine ⟨s', l, by simp only [List.foldlM_cons, hstep, ok_bind, hrun], hl.known hcache hdown ?_⟩
      intro name hash' z' hr
      rw [hreq.name_inj hr, hpresent]
      exact Option.some_ne_none d
    · -- the file is downloaded
      have hcache₁ : ∀ name, s₁.cache name = if name = n then some d else s.cache name := by
        intro name; rw [hcache]; rfl
      obtain ⟨s', l, hrun, hl⟩ := ih (s := s₁) hneeds' (by
        intro v hv name hash' z' d' hr hd'
        rw [hcache₁] at hd'
        split at hd'
        · rename_i he; rw [he, hdir, ← hd']
        · exact hright' v hv name hash' z' d' hr hd')
      exact ⟨s', n :: l, by simp only [List.foldlM_cons, hstep, ok_bind, hrun],
        hl.fetched hreq habsent hdir hcache₁ hdown⟩

theorem unpackDownloadRequirements_needs {u : UnpackFileEntry} (hn : Needs u)
    (h : unpackDownloadRequirements E U s u = .ok s') : ∃ name hash z, Requires u name hash z := by
  unfold unpackDownloadRequirements at h
  rw [if_pos hn.1] at h
  rcases hn.2 with ⟨pack, hp⟩ | hf
  · simp only [hp, bind_ok] at h
    obtain ⟨name, hname, _⟩ := h
    exact ⟨name, pack.hash, false, hn.1, .inl ⟨pack, hp, hname, rfl, rfl⟩⟩
  · simp only [hf, bind_ok] at h
    obtain ⟨name, hname, _⟩ := h
    exact ⟨name, u.entry.hash, isCompressed u.entry, hn.1, .inr ⟨hf, hname, rfl, rfl⟩⟩

/-- What is noted as verified is right for every entry that needs it. -/
def NotedRight (E : Env) (all : List UnpackFileEntry) (s : CacheState) : Prop :=
  ∀ u ∈ all, ∀ name hash z, Requires u name hash z → name ∈ s.cachedFiles →
    ∃ d, s.cache name = some d ∧ Verifies E hash z d

/-- One requirement: the file is noted as verified afterwards, and it is right for whoever needs it. -/
theorem unpackDownloadRequirements_noted {all : List UnpackFileEntry} {u : UnpackFileEntry}
    (hcons : ∀ u ∈ all, ∀ v ∈ all, ∀ name hash z hash' z', Requires u name hash z → Requires v name hash' z' →
      hash = hash' ∧ z = z') (hu : u ∈ all) (hs : NotedRight E all s)
    (h : unpackDownloadRequirements E U s u = .ok s') :
    NotedRight E all s' ∧ (Needs u → ∃ name hash z, Requires u name hash z ∧ name ∈ s'.cachedFiles) ∧
      s.cachedFiles ⊆ s'.cachedFiles ∧
      ∀ name, (∀ v ∈ all, ∀ hash z, ¬ Requires v name hash z) → s'.cache name = s.cache name := by
  by_cases hn : Needs u
  · obtain ⟨n, hash, z, hreq⟩ := unpackDownloadRequirements_needs hn h
    -- a content of `n` that verifies for `u` does so for everyone
    have hall : ∀ {d : Bytes}, Verifies E hash z d → ∀ v ∈ all, ∀ hash' z', Requires v n hash' z' →
        Verifies E hash' z' d := by
      intro d hv v hvm hash' z' hr
      obtain ⟨rfl, rfl⟩ := hcons u hu v hvm n hash z hash' z' hreq hr
      exact hv
    rcases downloadPayloadFile_cases ((unpackDownloadRequirements_iff hreq).1 h) with
      ⟨hm, _, rfl⟩ | ⟨_, d, hd, hv, rfl⟩ | ⟨_, _, d, _, hv, rfl⟩
    · exact ⟨hs, fun _ => ⟨n, hash, z, hreq, hm⟩, fun _ h => h, fun _ _ => rfl⟩
    · refine ⟨fun v hvm name hash' z' hr hmem => ?_, fun _ => ⟨n, hash, z, hreq, by simp⟩, by simp, fun _ _ => rfl⟩
      rcases List.mem_append.1 hmem with hmem | hmem
      · exact hs v hvm name hash' z' hr hmem
      · rw [List.mem_singleton.1 hmem] at hr ⊢
        exact ⟨d, hd, hall hv v hvm hash' z' hr⟩
    · refine ⟨fun v hvm name hash' z' hr hmem => ?_, fun _ => ⟨n, hash, z, hreq, by simp⟩, by simp, fun name hno => ?_⟩
      · by_cases he : name = n
        · subst he
          exact ⟨d, by simp [Dir.write], hall hv v hvm hash' z' hr⟩
        · obtain ⟨d', hd', hv'⟩ := hs v hvm name hash' z' hr (by simpa [he] using hmem)
          exact ⟨d', by simp [Dir.write, he, hd'], hv'⟩
      · have he : name ≠ n := by rintro rfl; exact hno u hu hash z hreq
        simp [Dir.write, he]
  · rw [unpackDownloadRequirements_none hn, Except.ok.injEq] at h
    subst h
    exact ⟨hs, fun h => absurd h hn, fun _ h => h, fun _ _ => rfl⟩

/-- **Whatever is needed is in the cache, and right**, after a run over the entries; other names are left
alone. -/
theorem downloads_verified {all : List UnpackFileEntry}
    (hcons : ∀ u ∈ all, ∀ v ∈ all, ∀ name hash z hash' z', Requires u name hash z → Requires v name hash' z' →
      hash = hash' ∧ z = z') (hs : NotedRight E all s) (h : all.foldlM (unpackDownloadRequirements E U) s = .ok s') :
    (∀ u ∈ all, Needs u → ∃ name hash z d, Requires u name hash z ∧ s'.cache name = some d ∧ Verifies E hash z d) ∧
      ∀ name, (∀ v ∈ all, ∀ hash z, ¬ Requires v name hash z) → s'.cache name = s.cache name := by
  have hrun : ∀ (us : List UnpackFileEntry) (s s' : CacheState), (∀ u ∈ us, u ∈ all) → NotedRight E all s →
      us.foldlM (unpackDownloadRequirements E U) s = .ok s' → NotedRight E all s' ∧
        (∀ u ∈ us, Needs u → ∃ name hash z, Requires u name hash z ∧ name ∈ s'.cachedFiles) ∧
        s.cachedFiles ⊆ s'.cachedFiles ∧
        ∀ name, (∀ v ∈ all, ∀ hash z, ¬ Requires v name hash z) → s'.cache name = s.cache name := by
    intro us
    induction us with
    | nil => intro s s' _ hs h; cases h; exact ⟨hs, by simp, fun _ h => h, fun _ _ => rfl⟩
    | cons u us ih =>
      intro s s' hsub hs h
      simp only [List.foldlM_cons, bind_ok] at h
      obtain ⟨s₁, h₁, h⟩ := h
      obtain ⟨hs₁, hu, hgrow, hframe⟩ := unpackDownloadRequirements_noted hcons (hsub u List.mem_cons_self) hs h₁
      obtain ⟨hs', hus, hgrow', hframe'⟩ := ih s₁ s' (fun v hv => hsub v (List.mem_cons_of_mem u hv)) hs₁ h
      refine ⟨hs', fun v hv hn => ?_, fun _ h => hgrow' (hgrow h), fun name hno =>
        (hframe' name hno).trans (hframe name hno)⟩
      rcases List.mem_cons.1 hv with rfl | hv
      · obtain ⟨name, hash, z, hr, hmem⟩ := hu hn
        exact ⟨name, hash, z, hr, hgrow' hmem⟩
      · exact hus v hv hn
  obtain ⟨hs', hnoted, _, hframe⟩ := hrun all s s' (fun _ h => h) hs h
  refine ⟨fun u hu hn => ?_, hframe⟩
  obtain ⟨name, hash, z, hr, hmem⟩ := hnoted u hu hn
  obtain ⟨d, hd, hv⟩ := hs' u hu name hash z hr hmem
  exact ⟨name, hash, z, d, hr, hd, hv⟩

/-! ## Repair -/

/-- The cached files that `download_payload_file` can deal with: a file that is noted as verified is
right, and the check of any other one returns, right or wrong. -/
def Checkable (E : Env) (hash : SfmfFileHash) (z : Bool) (filename : Bytes) (s : CacheState) : Prop :=
  ∀ d, s.cache filename = some d → (filename ∈ s.cachedFiles → Verifies E hash z d) ∧
    (filename ∉ s.cachedFiles → z = false ∨ ∃ b, converted E .zuncompress d = .ok b)

/-- **A call repairs the cache exactly if what is cached can be checked.** If the source delivers the
right bytes, then after the call the cache holds a file that passes the check, except where the
check of the cached file itself does not return. -/
theorem download_repairs_iff {c : Bytes} (hc : fetch E source filename = .ok c) (hv : Verifies E hash z c) :
    (∃ s' d, downloadPayloadFile E source false filename (some hash) z s = .ok (some filename, s') ∧
      s'.cache filename = some d ∧ Verifies E hash z d) ↔ Checkable E hash z filename s := by
  have hsha : hash.hashtype = hashtypeSha1 := by
    obtain ⟨b, _, rfl⟩ := (verifies_iff E).1 hv
    rfl
  constructor
  · rintro ⟨s', d', h, hd', hv'⟩ d hd
    rcases downloadPayloadFile_cases h with ⟨hm, _, rfl⟩ | ⟨hm, e, he, hve, _⟩ | ⟨hcase, _⟩
    · refine ⟨fun _ => ?_, fun hn => absurd hm hn⟩
      rw [hd] at hd'
      cases hd'
      exact hv'
    · refine ⟨fun hn => absurd hn hm, fun _ => ?_⟩
      obtain ⟨b, hb, _⟩ := (verifies_iff E).1 hve
      rw [hd] at he
      cases he
      cases z with
      | false => exact .inl rfl
      | true => exact .inr ⟨b, hb⟩
    · rcases hcase with hn | ⟨hm, e, he, hve⟩
      · rw [hd] at hn; cases hn
      · refine ⟨fun hn => absurd hn hm, fun _ => ?_⟩
        obtain ⟨b, hb, _⟩ := (sfmfFilehashVerify_ok E).1 hve
        rw [hd] at he
        cases he
        cases z with
        | false => exact .inl rfl
        | true => exact .inr ⟨b, hb⟩
  · intro hcheck
    cases hd : s.cache filename with
    | none =>
      refine ⟨⟨s.cache.write filename c, s.cachedFiles ++ [filename], s.downloads ++ [filename]⟩, c, ?_,
        by simp [Dir.write], hv⟩
      simp only [downloadPayloadFile, checkCached, hd, pure_eq_ok, ok_bind]
      exact downloadMissing_ok hc hv
    | some d =>
      have hcheck := hcheck d hd
      by_cases hm : filename ∈ s.cachedFiles
      · refine ⟨s, d, ?_, hd, hcheck.1 hm⟩
        simp [downloadPayloadFile, checkCached, hd, hm]
      -- the check returns, so the file is kept or deleted
      obtain ⟨b, hb⟩ : ∃ b, converted E (if z then .zuncompress else .none) d = .ok b := by
        cases z with
        | false => exact ⟨d, converted_none E d⟩
        | true => exact (hcheck.2 hm).resolve_left (by simp)
      have hret := (sfmfFilehashVerify_ok E).2 ⟨b, hb, hsha, rfl⟩
      by_cases he : (⟨UInt32.ofNat b.length, hashtypeSha1, E.sha1 b⟩ : SfmfFileHash) = hash
      · rw [decide_eq_true he] at hret
        refine ⟨{ s with cachedFiles := s.cachedFiles ++ [filename] }, d, ?_, hd, hret⟩
        simp [downloadPayloadFile, checkCached, hd, hm, hret]
      · rw [decide_eq_false he] at hret
        refine ⟨⟨(s.cache.unlink filename).write filename c, s.cachedFiles ++ [filename],
          s.downloads ++ [filename]⟩, c, ?_, by simp [Dir.write], hv⟩
        have hgone : s.cache.unlink filename filename = none := by simp [Dir.unlink]
        simp only [downloadPayloadFile, checkCached, hd, hm, if_false, hret, ok_bind, Bool.false_eq_true,
          pure_eq_ok, hgone]
        exact downloadMissing_ok hc hv

/-! ## A damaged blob -/

/-- What zlib and SHA-1 make of the letters. -/
def lettersEnv : Env := .ofTable [(letters, lettersDeflated, lettersDigest)]

def lettersHash : SfmfFileHash := ⟨32, hashtypeSha1, lettersEnv.sha1 letters⟩

/-- A cache directory with a blob of two bytes. -/
def damagedCache : CacheState := ⟨fun n => if n = str ['b'] then some [0xff, 0xff] else none, [], []⟩

/-- A server that has the blob. -/
def lettersServer : PayloadSource := .http fun _ => some lettersDeflated

theorem lettersDeflated_verifies : Verifies lettersEnv lettersHash true lettersDeflated := by
  unfold Verifies
  decide +kernel

theorem download_repairs_iff_damaged :
    (∃ s' d, downloadPayloadFile lettersEnv lettersServer false (str ['b']) (some lettersHash) true damagedCache =
        .ok (some (str ['b']), s') ∧ s'.cache (str ['b']) = some d ∧ Verifies lettersEnv lettersHash true d) ↔
      Checkable lettersEnv lettersHash true (str ['b']) damagedCache :=
  download_repairs_iff rfl lettersDeflated_verifies

/-- **A damaged compressed blob is not replaced**: its check runs into an assertion. -/
theorem download_aborts : fetch lettersEnv lettersServer (str ['b']) = .ok lettersDeflated ∧
    Verifies lettersEnv lettersHash true lettersDeflated ∧
    ∀ r, downloadPayloadFile lettersEnv lettersServer false (str ['b']) (some lettersHash) true damagedCache ≠ .ok r := by
  refine ⟨rfl, lettersDeflated_verifies, fun r h => ?_⟩
  have habort : sfmfFilehashVerify lettersEnv lettersHash [0xff, 0xff] true =
      .error (.assertion "res == Z_OK || res == Z_STREAM_END") := by decide +kernel
  have hcached : damagedCache.cache (str ['b']) = some [0xff, 0xff] := by decide
  have hnew : str ['b'] ∉ damagedCache.cachedFiles := by simp [damagedCache]
  simp [downloadPayloadFile, checkCached, hcached, hnew, habort] at h

end Sfmf

import Sfmf.Proof.PackReturns
import Sfmf.Proof.Routes

/-!
# From the packer to the restored tree

With the contracts of zlib instead of what its calls do on the files at hand: both programs end, with
budgets that are large enough, and the tree is restored.

* `TreeFits`, `OutputFits`: a tree and what is made of it fit into the formats.
* `packRun_settles`: what the packer returns is a run within the limits.
* `deploy_restores`: a run of the unpacker with access to it returns, and restores the tree.
-/

namespace Sfmf

variable {E : Env} {F : StreamFormat} {stream : Bytes → Bytes → Prop} {D L : SourceTree} {opts : PackOptions}
  {metaFile : Bytes} {outDir : Dir} {walk : List CString} {P : Packed} {U : UnpackOptions}

/-! ## What fits into the formats -/

/-- A tree whose files fit into the formats, and their streams as well. -/
structure TreeFits (D : Disk) (walk : List CString) (stream : Bytes → Bytes → Prop) : Prop where
  regular : ∀ p ∈ walk, ∀ st, D.lstat p = some st → sIsreg st.stMode → st.stSize < 2 ^ 31
  streams : ∀ p ∈ walk, ∀ d, D.fopen p = some d → ∀ z, stream d z → z.length < 2 ^ 32

/-- What is written fits into the formats. -/
structure OutputFits (metaFile : Bytes) (P : Packed) : Prop where
  manifest : P.manifest.length < 2 ^ 32
  packs : ∀ p ∈ P.packs, sfpfFileHeaderSize + (metaFile ++ [0]).length + sfmfBlobEntrySize * p.files.length +
    (p.files.map minSize).sum < 2 ^ 32

/-- What holds of each element from some budget on holds of all of them from some budget on. -/
theorem eventually_forall_mem {α : Type} {l : List α} {p : ℕ → α → Prop} (h : ∀ a ∈ l, ∀ᶠ k in Filter.atTop, p k a) :
    ∀ᶠ k in Filter.atTop, ∀ a ∈ l, p k a :=
  (Filter.eventually_all_finite l.finite_toSet).2 h

/-- A complete stream is not empty: there are two contents, and no stream is the start of another one. -/
theorem stream_ne_nil (hdeflate : E.zlib.DeflateContract stream) (hstream : ∀ d z, stream d z → F.decode z = some d)
    {d z : Bytes} (hz : stream d z) : z ≠ [] := by
  rintro rfl
  have hother : ∀ d', d' = d := by
    intro d'
    obtain ⟨z', hz', -⟩ := converted_zcompress hdeflate d'
    have hd := hstream d [] hz
    have hd' := hstream d' z' hz'
    have hnil : [] = z' := F.prefixFree (by rw [hd]; rfl) (by rw [hd']; rfl) List.nil_prefix
    rw [← hnil, hd, Option.some.injEq] at hd'
    exact hd'.symm
  exact absurd ((hother [0]).trans (hother []).symm) (by decide)

/-- **What the code relies on of zlib** follows from the contracts. -/
theorem deflates_settles (hdeflate : E.zlib.DeflateContract stream) (hstream : ∀ d z, stream d z → F.decode z = some d)
    (hinflate : E.zlib.InflateContract F) {d : Bytes} (hshort : ∀ z, stream d z → z.length < 2 ^ 32) :
    ∀ᶠ k in Filter.atTop, (E.withFuel k).Deflates d := by
  obtain ⟨z, hz, hcompress⟩ := converted_zcompress hdeflate d
  filter_upwards [hcompress, converted_zuncompress hinflate (hstream d z hz)] with k hcompress huncompress z' hz'
  obtain rfl : z = z' := Except.ok.inj (hcompress.symm.trans hz')
  exact ⟨stream_ne_nil hdeflate hstream hz, hshort z hz, huncompress⟩

/-! ## The packer -/

/-- **What the packer returns** is a run within the limits, with any large enough budget. -/
theorem packRun_settles (hdeflate : E.zlib.DeflateContract stream) (hstream : ∀ d z, stream d z → F.decode z = some d)
    (hinflate : E.zlib.InflateContract F) (hE : E.NoReflink) (hfits : TreeFits D.toDisk walk stream)
    (hP : Exec.Settles (fun k => packMain (E.withFuel k) D.toDisk opts metaFile outDir walk) (.ok P))
    (hout : OutputFits metaFile P) :
    ∀ᶠ k in Filter.atTop, PackRun (E.withFuel k) D opts metaFile outDir walk P := by
  have hdeflates : ∀ᶠ k in Filter.atTop, ∀ p ∈ walk, ∀ d, D.fopen p = some d → (E.withFuel k).Deflates d := by
    refine eventually_forall_mem fun p hp => ?_
    cases hd : D.fopen p with
    | none => exact .of_forall fun _ _ h => by cases h
    | some d =>
      filter_upwards [deflates_settles hdeflate hstream hinflate (hfits.streams p hp d hd)] with k hk d' hd'
      obtain rfl := Option.some.inj hd'
      exact hk
  filter_upwards [hP, hdeflates] with k hk hdeflates
  obtain ⟨-, hlisted, -, hnames⟩ := packMain_ok hk
  have hwalk : ∀ f ∈ P.files, f.filename ∈ walk := fun f hf =>
    (List.mem_filter.1 (hnames ▸ List.mem_map_of_mem hf)).1
  exact ⟨hk, hE, fun f hf _ d hd => hdeflates _ (hwalk f hf) d hd,
    fun f hf hreg => hfits.regular _ (hwalk f hf) _ (hlisted f hf).lstat hreg, hout.manifest, hout.packs⟩

/-! ## The unpacker -/

/-- Local sources whose files are there, with no symlink that is mistaken for a regular file that was packed. -/
structure LocalTree (E : Env) (D : SourceTree) (P : Packed) (U : UnpackOptions) (L : SourceTree) : Prop where
  disk : U.localDisk = L.toDisk
  visited : ∀ p, Visited U p → L.lstat p ≠ none
  links : ∀ p st t, Visited U p → L.lstat p = some st → sIslnk st.stMode → L.readlink p = some t →
    ∀ f ∈ P.files, sIsreg f.st.stMode → D.fopen f.filename ≠ some t
  noCollision : E.NoCollision fun d => StoredContent D.toDisk P d ∨ LocalContent U L d

/-- Their files can be compressed, with any large enough budget. -/
theorem LocalTree.settles (S : LocalTree E D P U L) (hdeflate : E.zlib.DeflateContract stream) :
    ∀ᶠ k in Filter.atTop, LocalSources (E.withFuel k) D P U L := by
  have hcompress : ∀ᶠ k in Filter.atTop, ∀ p ∈ U.sourcedirs.flatten, ∀ d, L.fopen p = some d →
      ∃ z, converted (E.withFuel k) .zcompress d = .ok z := by
    refine eventually_forall_mem fun p _ => ?_
    cases hd : L.fopen p with
    | none => exact .of_forall fun _ _ h => by cases h
    | some d =>
      obtain ⟨z, -, hz⟩ := converted_zcompress hdeflate d
      filter_upwards [hz] with k hk d' hd'
      obtain rfl := Option.some.inj hd'
      exact ⟨z, hk⟩
  filter_upwards [hcompress] with k hk
  refine ⟨S.disk, S.visited, fun p d hv hd _ => ?_, S.links, S.noCollision⟩
  obtain ⟨walk, hwalk, hp⟩ := hv
  exact hk p (List.mem_flatten.2 ⟨walk, hwalk, hp⟩) d hd

/-- Access with one budget is access with larger ones. -/
theorem Access.settles {cache : Dir} (A : Access E P U cache) :
    ∀ᶠ k in Filter.atTop, Access (E.withFuel k) P U cache := by
  filter_upwards [Filter.eventually_ge_atTop E.fuel] with k hk
  refine ⟨A.cached, fun hon name d hw hd => ?_, A.complete⟩
  have hfetch := fetch_below (E := E) hk U.source name
  rw [show E.withFuel E.fuel = E from rfl, A.served hon name d hw hd] at hfetch
  exact hfetch.ok

/-- The environment of the tree of the letters, with a zlib for all data. -/
def letterTreeCoder : Env := { letterTreeEnv with zlib := .ofTransducer lettersCoder lettersEncode }

theorem letterTreeCoder_encode : letterTreeCoder.zlib.DeflateContract fun t z => z = lettersEncode t :=
  deflateContract_ofTransducer _ _

end Sfmf

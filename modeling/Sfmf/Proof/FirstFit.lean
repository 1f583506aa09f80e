import Sfmf.Lib.FirstFit
import Sfmf.Proof.Buckets

/-!
# First-fit packs

`make_packs` adds up sizes in 32 bits. As long as the sizes and the limit are below
2 GiB no sum wraps, and the packs are those of first fit on true sizes.

* `packlistInsert_bins`: one insertion is that of first fit.
* `makePacks_firstFit`: the packs lose nothing, keep to the limit, and are tight.
-/

namespace Sfmf

/-- A pack is a bin: its size field is the true load. -/
def IsBin (b : List FileEntry) (p : PackEntry) : Prop := p.files = b ∧ p.size.toNat = FirstFit.load minSize b

/-- **One insertion** puts the file where first fit puts it. -/
theorem packlistInsert_bins {limit : UInt32} {f : FileEntry} (hf : minSize f < 2 ^ 31)
    {bins : List (List FileEntry)} {packs : List PackEntry} (h : List.Forall₂ IsBin bins packs)
    (hload : ∀ b ∈ bins, FirstFit.load minSize b < 2 ^ 31) :
    List.Forall₂ IsBin (FirstFit.insert minSize limit.toNat f bins) (packlistInsert limit f packs) := by
  have hnew : (fileentryGetMinSize f).toUInt32.toNat = minSize f := rfl
  induction h with
  | nil => exact .cons ⟨rfl, by simp [hnew]⟩ .nil
  | @cons b p bins packs hp hrest ih =>
    obtain ⟨rfl, hsize⟩ := hp
    have hb := hload p.files List.mem_cons_self
    -- the sum of the two sizes does not wrap
    have hsum : (p.size + (fileentryGetMinSize f).toUInt32).toNat = FirstFit.load minSize p.files + minSize f := by
      rw [UInt32.toNat_add, hsize, hnew]
      omega
    have hroom : p.size + (fileentryGetMinSize f).toUInt32 ≤ limit ↔
        FirstFit.load minSize p.files + minSize f ≤ limit.toNat := by
      rw [UInt32.le_iff_toNat_le, hsum]
    unfold FirstFit.insert packlistInsert
    by_cases hfit : FirstFit.load minSize p.files + minSize f ≤ limit.toNat
    · rw [if_pos hfit]
      simp only [if_pos (hroom.2 hfit)]
      exact .cons ⟨rfl, by rw [hsum, FirstFit.load_append, FirstFit.load_singleton]⟩ hrest
    · rw [if_neg hfit]
      simp only [if_neg (mt hroom.1 hfit)]
      exact .cons ⟨rfl, hsize⟩ (ih fun c hc => hload c (List.mem_cons_of_mem _ hc))

/-- **The packs are the bins of first fit.** -/
theorem makePacks_bins {packed : List FileEntry} {limit : UInt32} (hlimit : limit.toNat < 2 ^ 31)
    (hsize : ∀ f ∈ packed, minSize f < 2 ^ 31) :
    List.Forall₂ IsBin (FirstFit.pack minSize limit.toNat packed) (makePacks packed limit) := by
  have hrun : ∀ (rest done : List FileEntry) (bins : List (List FileEntry)) (packs : List PackEntry),
      FirstFit.IsPacking minSize limit.toNat done bins → (∀ f ∈ done ++ rest, minSize f < 2 ^ 31) →
      List.Forall₂ IsBin bins packs →
      List.Forall₂ IsBin (rest.foldl (fun bins f => FirstFit.insert minSize limit.toNat f bins) bins)
        (rest.foldl (fun list f => packlistInsert limit f list) packs) := by
    intro rest
    induction rest with
    | nil => intro done bins packs _ _ h; exact h
    | cons f rest ih =>
      intro done bins packs hpacking hall h
      have hload : ∀ b ∈ bins, FirstFit.load minSize b < 2 ^ 31 := by
        intro b hb
        rcases hpacking.bounded b hb with hle | ⟨x, rfl, _⟩
        · omega
        · have hx : x ∈ done := (hpacking.order [x] hb).subset List.mem_cons_self
          rw [FirstFit.load_singleton]
          exact hall x (List.mem_append_left _ hx)
      have hf := hall f (List.mem_append_right _ List.mem_cons_self)
      refine ih (done ++ [f]) _ _ (hpacking.insert f) ?_ (packlistInsert_bins hf h hload)
      rwa [List.append_assoc, List.singleton_append]
  exact hrun packed [] [] [] .nil (by simpa using hsize) .nil

/-- **Packs of a list of files for a limit.** -/
structure FirstFitPacks (packed : List FileEntry) (limit : UInt32) (packs : List PackEntry) : Prop where
  /-- every file is in the packs, once -/
  perm : (packs.flatMap (·.files)).Perm packed
  /-- a pack has its files in the order of the list -/
  order : ∀ p ∈ packs, p.files.Sublist packed
  nonempty : ∀ p ∈ packs, p.files ≠ []
  /-- the size field is the true sum -/
  size : ∀ p ∈ packs, p.size.toNat = (p.files.map minSize).sum
  bounded : ∀ p ∈ packs, p.size ≤ limit ∨ ∃ f, p.files = [f] ∧ limit.toNat < minSize f
  /-- no file has room in an earlier pack -/
  tight : packs.Pairwise fun p q => ∀ f ∈ q.files, limit.toNat < p.size.toNat + minSize f

/-- **First-fit packing is lossless, bounded and tight.** -/
theorem makePacks_firstFit {packed : List FileEntry} {limit : UInt32}
    (hsize : ∀ f ∈ packed, 1 ≤ minSize f ∧ minSize f ≤ 2 ^ 31 - 1) (hlimit : limit.toNat < 2 ^ 31) :
    FirstFitPacks packed limit (makePacks packed limit) := by
  have hlt : ∀ f ∈ packed, minSize f < 2 ^ 31 := fun f hf => by
    have := (hsize f hf).2
    omega
  have hbins := makePacks_bins hlimit hlt
  have hpacking : FirstFit.IsPacking minSize limit.toNat packed _ := FirstFit.pack_isPacking packed
  -- the packs are the bins of first fit, with their loads as sizes
  have hfiles : (makePacks packed limit).map (·.files) = FirstFit.pack minSize limit.toNat packed := by
    generalize makePacks packed limit = packs at hbins
    generalize FirstFit.pack minSize limit.toNat packed = bins at hbins
    induction hbins with
    | nil => rfl
    | cons hp _ ih => rw [List.map_cons, ih, hp.1]
  have hmem : ∀ p ∈ makePacks packed limit, p.files ∈ FirstFit.pack minSize limit.toNat packed := by
    intro p hp
    rw [← hfiles]
    exact List.mem_map_of_mem hp
  have hsum : ∀ p ∈ makePacks packed limit, p.size.toNat = FirstFit.load minSize p.files := by
    intro p hp
    obtain ⟨i, hi, rfl⟩ := List.getElem_of_mem hp
    obtain ⟨hb, hload⟩ := hbins.get (hbins.length_eq ▸ hi) hi
    rw [List.get_eq_getElem] at hb hload
    rw [hload, ← hb]
  constructor
  case perm =>
    rw [List.flatMap_def, hfiles]
    exact hpacking.perm
  case order => exact fun p hp => hpacking.order _ (hmem p hp)
  case nonempty => exact fun p hp => hpacking.nonempty _ (hmem p hp)
  case size => exact hsum
  case bounded =>
    intro p hp
    rw [UInt32.le_iff_toNat_le, hsum p hp]
    exact hpacking.bounded _ (hmem p hp)
  case tight =>
    have htight := hpacking.tight
    rw [← hfiles, List.pairwise_map] at htight
    refine htight.imp_of_mem fun {p q} hp _ h f hf => ?_
    rw [hsum p hp]
    exact h f hf

/-- Files of 3, 4, 2 and 12 bytes for packs of 6: the third file goes into the first pack, and the last has a pack
of its own. -/
theorem makePacks_firstFit_four : FirstFitPacks ([3, 4, 2, 12].map (fileOfSizes · 0)) 6
      (makePacks ([3, 4, 2, 12].map (fileOfSizes · 0)) 6) ∧
    (makePacks ([3, 4, 2, 12].map (fileOfSizes · 0)) 6).map (fun p => p.files.map (·.st.stSize)) = [[3, 2], [4], [12]] :=
  ⟨makePacks_firstFit (by decide) (by decide), by decide⟩

end Sfmf

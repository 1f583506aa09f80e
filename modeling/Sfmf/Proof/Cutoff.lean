import Sfmf.Lib.Halving
import Sfmf.Proof.StoredOnce

/-!
# The search for the cut-off

`get_cutoff_size_bytes` halves a range of sizes and adds up, for each center, the
files that are smaller.

* `getCutoffSum_foldl`: what it adds up is the minimum sizes of the files that
  `bucketize_file_list` embeds for that cut-off.
* `cutoffSearch_eq`: what it returns is the best of the centers it has probed.
* `searchWalk_toNat`: where the start is the middle of the range, the search is that of
  `Sfmf.Halving`, so no step wraps.
* `getCutoffSizeBytes_budget`: so the embedded files keep to the limit.
* `getCutoffSizeBytes_best_iff`: it is the best of these centers exactly when no sum
  meets the limit: a center whose files fill the limit is not noted.
-/

namespace Sfmf

open Halving

/-! ## Sums -/

/-- The size of the files that are selected by a cut-off. -/
def selectedSum (files : List FileEntry) (cutoff : ℕ) : ℕ :=
  ((files.filter fun f => minSize f < cutoff).map minSize).sum

theorem selectedSum_zero (files : List FileEntry) : selectedSum files 0 = 0 := by
  simp [selectedSum]

theorem selectedSum_cons (f : FileEntry) (files : List FileEntry) (cutoff : ℕ) :
    selectedSum (f :: files) cutoff = (if minSize f < cutoff then minSize f else 0) + selectedSum files cutoff := by
  unfold selectedSum
  by_cases h : minSize f < cutoff
  · rw [List.filter_cons_of_pos (by simpa using h), if_pos h, List.map_cons, List.sum_cons]
  · rw [List.filter_cons_of_neg (by simpa using h), if_neg h, Nat.zero_add]

theorem selectedSum_le (files : List FileEntry) (cutoff : ℕ) : selectedSum files cutoff ≤ (files.map minSize).sum :=
  (List.filter_sublist.map minSize).sum_le_sum fun _ _ => Nat.zero_le _

/-- A larger cut-off selects more. -/
theorem selectedSum_mono (files : List FileEntry) {c c' : ℕ} (h : c ≤ c') :
    selectedSum files c ≤ selectedSum files c' := by
  induction files with
  | nil => exact le_rfl
  | cons f files ih =>
    rw [selectedSum_cons, selectedSum_cons]
    by_cases hc : minSize f < c
    · rw [if_pos hc, if_pos (by omega)]
      omega
    · rw [if_neg hc]
      omega

/-- One file, as `get_cutoff_sum` tests and adds it. -/
theorem getCutoffSum_eq {cutoff sum : UInt32} {f : FileEntry} (hs : f.st.stSize < 2 ^ 32) :
    getCutoffSum cutoff sum f = if minSize f < cutoff.toNat then sum + UInt32.ofNat (minSize f) else sum := by
  have hpos : f.zsize > 0 ↔ 0 < f.zsize.toNat := UInt32.lt_iff_toNat_lt
  have hlt : f.zsize < cutoff ↔ f.zsize.toNat < cutoff.toNat := UInt32.lt_iff_toNat_lt
  have hmin := minSize_eq hs
  unfold getCutoffSum
  by_cases hz : 0 < f.zsize.toNat ∧ f.zsize.toNat < f.st.stSize
  · rw [if_pos hz] at hmin
    have hof : UInt32.ofNat (minSize f) = f.zsize := by rw [hmin, UInt32.ofNat_toNat]
    by_cases hc : f.zsize.toNat < cutoff.toNat
    · rw [if_pos ⟨hpos.2 hz.1, hz.2, hlt.2 hc⟩, if_pos (by omega), hof]
    · rw [if_neg (fun h => hc (hlt.1 h.2.2)), if_neg (by omega), if_neg (by omega)]
  · rw [if_neg hz] at hmin
    rw [if_neg (fun h => hz ⟨hpos.1 h.1, h.2.1⟩), hmin]

/-- **The sum of `get_cutoff_sum`** is that of the files a cut-off selects, if it does not wrap. -/
theorem getCutoffSum_foldl {files : List FileEntry} (hs : ∀ f ∈ files, f.st.stSize < 2 ^ 32)
    (hsum : (files.map minSize).sum < 2 ^ 32) (cutoff : UInt32) :
    (files.foldl (getCutoffSum cutoff) 0).toNat = selectedSum files cutoff.toNat := by
  -- the sum wraps as it likes on the way; only the total has to fit
  have hrun : ∀ (files : List FileEntry) (sum : UInt32), (∀ f ∈ files, f.st.stSize < 2 ^ 32) →
      files.foldl (getCutoffSum cutoff) sum = sum + UInt32.ofNat (selectedSum files cutoff.toNat) := by
    intro files
    induction files with
    | nil => intro sum _; simp [selectedSum]
    | cons f files ih =>
      intro sum hs
      rw [List.foldl_cons, ih _ fun g hg => hs g (List.mem_cons_of_mem _ hg), selectedSum_cons,
        getCutoffSum_eq (hs f List.mem_cons_self), UInt32.ofNat_add]
      by_cases hf : minSize f < cutoff.toNat
      · rw [if_pos hf, if_pos hf, UInt32.add_assoc]
      · rw [if_neg hf, if_neg hf]
        simp
  rw [hrun files 0 hs, UInt32.zero_add]
  exact ofNat_toNat_of_lt (lt_of_le_of_lt (selectedSum_le files cutoff.toNat) hsum)

/-! ## The search -/

/-- Where the search goes from a center, with the width already halved. -/
def nextCenter (files : List FileEntry) (upper center width : UInt32) : UInt32 :=
  if files.foldl (getCutoffSum center) 0 > upper then center - width
  else if files.foldl (getCutoffSum center) 0 < upper then center + width
  else center

theorem half_lt {width : UInt32} (h : width > 1) : (width / 2).toNat = width.toNat / 2 ∧ 1 < width.toNat := by
  have hw : (1 : UInt32).toNat < width.toNat := UInt32.lt_iff_toNat_lt.1 h
  exact ⟨UInt32.toNat_div width 2, hw⟩

/-- The centers that the loop probes, from a center and a width on. -/
def cutoffProbes (files : List FileEntry) (upper center width : UInt32) : List UInt32 :=
  if width > 1 then center :: cutoffProbes files upper (nextCenter files upper center (width / 2)) (width / 2) else []
termination_by width.toNat
decreasing_by
  have := half_lt ‹width > 1›
  omega

/-- The better of two centers. -/
def better (best center : UInt32) : UInt32 := if best < center then center else best

/-- The best of a list of centers: it is one of them unless none is better than the start. -/
theorem better_foldl (centers : List UInt32) (best : UInt32) :
    (centers.foldl better best = best ∨ centers.foldl better best ∈ centers) ∧
      best ≤ centers.foldl better best ∧ ∀ c ∈ centers, c ≤ centers.foldl better best := by
  induction centers generalizing best with
  | nil => exact ⟨.inl rfl, UInt32.le_refl _, by simp⟩
  | cons c centers ih =>
    obtain ⟨hmem, hle, hall⟩ := ih (better best c)
    have hbest : best ≤ better best c := by
      unfold better
      split
      · rename_i h
        exact UInt32.le_of_lt h
      · exact UInt32.le_refl _
    have hc : c ≤ better best c := by
      unfold better
      split
      · exact UInt32.le_refl _
      · rename_i h
        exact UInt32.not_lt.1 h
    rw [List.foldl_cons]
    refine ⟨?_, UInt32.le_trans hbest hle, fun x hx => ?_⟩
    · rcases hmem with heq | hin
      · rw [heq]
        unfold better
        split
        · exact .inr List.mem_cons_self
        · exact .inl rfl
      · exact .inr (List.mem_cons_of_mem _ hin)
    · rcases List.mem_cons.1 hx with rfl | hx
      · exact UInt32.le_trans hc hle
      · exact hall x hx

/-- **What the search returns**: the best of the probed centers whose sum is below the limit. -/
theorem cutoffSearch_eq {files : List FileEntry} {upper : UInt32} : ∀ {n : ℕ} {center width best : UInt32},
    width.toNat < 2 ^ (n + 1) → cutoffSearch files upper n center width best =
      ((cutoffProbes files upper center width).filter fun c => files.foldl (getCutoffSum c) 0 < upper).foldl
        better best := by
  intro n
  induction n with
  | zero =>
    intro center width best hw
    have hstop : ¬ width > 1 := fun h => by
      have := (half_lt h).2
      omega
    rw [cutoffProbes, if_neg hstop]
    rfl
  | succ n ih =>
    intro center width best hw
    unfold cutoffSearch
    rw [cutoffProbes]
    by_cases hgo : width > 1
    · have hhalf : (width / 2).toNat < 2 ^ (n + 1) := by
        rw [(half_lt hgo).1]
        rw [pow_succ] at hw
        omega
      simp only [if_pos hgo, nextCenter]
      -- the center is noted in the second of the three branches only
      by_cases hgt : files.foldl (getCutoffSum center) 0 > upper
      · have hno : ¬ files.foldl (getCutoffSum center) 0 < upper := UInt32.lt_asymm hgt
        rw [if_pos hgt, if_pos hgt, ih hhalf, List.filter_cons_of_neg (by simpa using hno)]
      rw [if_neg hgt, if_neg hgt]
      by_cases hlt : files.foldl (getCutoffSum center) 0 < upper
      · rw [if_pos hlt, if_pos hlt, ih hhalf, List.filter_cons_of_pos (by simpa using hlt)]
        rfl
      · rw [if_neg hlt, if_neg hlt, ih hhalf, List.filter_cons_of_neg (by simpa using hlt)]
    · rw [if_neg hgo, if_neg hgo]
      rfl

/-! ## The rounds of the search -/

/-- One round of the search: the width is halved, and the center moves by it. -/
def searchStep (s : UInt32 × UInt32) : Move → UInt32 × UInt32
  | .down => (s.1 - s.2 / 2, s.2 / 2)
  | .stay => (s.1, s.2 / 2)
  | .up => (s.1 + s.2 / 2, s.2 / 2)

/-- Center and width at the start. -/
def searchStart (files : List FileEntry) : UInt32 × UInt32 :=
  let minSize := files.foldl getCutoffMinSize (UInt32.ofNat (2 ^ 32 - 1))
  let maxSize := files.foldl getCutoffMaxSize 0
  ((maxSize + minSize) / 2, (maxSize - minSize) / 2)

/-- The move that the sum of a center asks for. -/
def cutoffMove (files : List FileEntry) (upper center : UInt32) : Move :=
  if files.foldl (getCutoffSum center) 0 > upper then .down
  else if files.foldl (getCutoffSum center) 0 < upper then .up
  else .stay

/-- What the search has of numbers without a bound. -/
def probeOf (s : UInt32 × UInt32) : Probe := ⟨s.1.toNat, s.2.toNat⟩

theorem searchStep_cutoffMove (files : List FileEntry) (upper center width : UInt32) :
    searchStep (center, width) (cutoffMove files upper center) =
      (nextCenter files upper center (width / 2), width / 2) := by
  unfold cutoffMove nextCenter
  split_ifs <;> rfl

/-- **What is probed has been reached by moves**, with a width that lets the loop go on. -/
theorem cutoffProbes_walk {files : List FileEntry} {upper : UInt32} (center width : UInt32) :
    ∀ c ∈ cutoffProbes files upper center width, ∃ moves : List Move,
      (moves.foldl searchStep (center, width)).1 = c ∧ (moves.foldl searchStep (center, width)).2 > 1 := by
  induction center, width using cutoffProbes.induct files upper with
  | case1 center width hgo ih =>
    intro c hc
    rw [cutoffProbes, if_pos hgo] at hc
    rcases List.mem_cons.1 hc with rfl | hc
    · exact ⟨[], rfl, hgo⟩
    · obtain ⟨moves, hmoves⟩ := ih c hc
      refine ⟨cutoffMove files upper center :: moves, ?_⟩
      rw [List.foldl_cons, searchStep_cutoffMove]
      exact hmoves
  | case2 center width hstop =>
    intro c hc
    rw [cutoffProbes, if_neg hstop] at hc
    exact absurd hc List.not_mem_nil

/-- A round within a range of 32 bits is a round without wrap-around. -/
theorem probeOf_step {lo hi : ℕ} {s : UInt32 × UInt32} (h : (probeOf s).Within lo hi) (hhi : hi < 2 ^ 32) (m : Move) :
    probeOf (searchStep s m) = (probeOf s).step m := by
  obtain ⟨center, width⟩ := s
  unfold Probe.Within probeOf at h
  dsimp only at h
  have hhalf : (width / 2).toNat = width.toNat / 2 := UInt32.toNat_div width 2
  cases m with
  | down =>
    have hsub : (center - width / 2).toNat = center.toNat - width.toNat / 2 := by
      rw [UInt32.toNat_sub_of_le _ _ (UInt32.le_iff_toNat_le.2 (by omega)), hhalf]
    simp only [searchStep, probeOf, Probe.step, hsub, hhalf]
  | stay => simp only [searchStep, probeOf, Probe.step, hhalf]
  | up =>
    have hadd : (center + width / 2).toNat = center.toNat + width.toNat / 2 := by
      rw [UInt32.toNat_add, hhalf]
      omega
    simp only [searchStep, probeOf, Probe.step, hadd, hhalf]

theorem searchWalk_toNat {lo hi : ℕ} {s : UInt32 × UInt32} (h : (probeOf s).Within lo hi) (hhi : hi < 2 ^ 32)
    (moves : List Move) : probeOf (moves.foldl searchStep s) = moves.foldl Probe.step (probeOf s) := by
  induction moves generalizing s with
  | nil => rfl
  | cons m moves ih =>
    have hstep := probeOf_step h hhi m
    rw [List.foldl_cons, List.foldl_cons, ← hstep]
    exact ih (hstep ▸ h.step m)

/-- The width does not depend on where the search is. -/
theorem searchWalk_width (s : UInt32 × UInt32) (moves : List Move) :
    (moves.foldl searchStep s).2.toNat = s.2.toNat / 2 ^ moves.length := by
  refine foldl_halving (fun s : UInt32 × UInt32 => s.2.toNat) (fun s m => ?_) moves s
  cases m <;> exact UInt32.toNat_div s.2 2

/-! ## The range -/

/-- The smallest size of a list of files, of 32 bits. -/
def smallestSize (files : List FileEntry) : ℕ := files.foldl (fun m f => min m (minSize f)) (2 ^ 32 - 1)

/-- The largest size of a list of files. -/
def largestSize (files : List FileEntry) : ℕ := files.foldl (fun m f => max m (max f.st.stSize f.zsize.toNat)) 0

theorem getCutoffMinSize_foldl (files : List FileEntry) :
    (files.foldl getCutoffMinSize (UInt32.ofNat (2 ^ 32 - 1))).toNat = smallestSize files := by
  have hrun : ∀ (files : List FileEntry) (m : UInt32),
      (files.foldl getCutoffMinSize m).toNat = files.foldl (fun m f => min m (minSize f)) m.toNat := by
    intro files
    induction files with
    | nil => exact fun m => rfl
    | cons f files ih =>
      intro m
      have hstep : (getCutoffMinSize m f).toNat = min m.toNat (minSize f) := by
        simp only [getCutoffMinSize, UInt32.lt_iff_toNat_lt]
        unfold minSize
        split <;> omega
      rw [List.foldl_cons, List.foldl_cons, ih, hstep]
  exact hrun files _

theorem getCutoffMaxSize_foldl {files : List FileEntry} (hs : ∀ f ∈ files, f.st.stSize < 2 ^ 32) :
    (files.foldl getCutoffMaxSize 0).toNat = largestSize files := by
  have hrun : ∀ (files : List FileEntry) (m : UInt32), (∀ f ∈ files, f.st.stSize < 2 ^ 32) →
      (files.foldl getCutoffMaxSize m).toNat =
        files.foldl (fun m f => max m (max f.st.stSize f.zsize.toNat)) m.toNat := by
    intro files
    induction files with
    | nil => exact fun m _ => rfl
    | cons f files ih =>
      intro m hs
      have hof := ofNat_toNat_of_lt (hs f List.mem_cons_self)
      have hmax : (if f.st.stSize > m.toNat then UInt32.ofNat f.st.stSize else m).toNat = max m.toNat f.st.stSize := by
        split <;> omega
      have hstep : (getCutoffMaxSize m f).toNat = max m.toNat (max f.st.stSize f.zsize.toNat) := by
        unfold getCutoffMaxSize
        simp only
        generalize (if f.st.stSize > m.toNat then UInt32.ofNat f.st.stSize else m) = m' at hmax ⊢
        by_cases hz : f.zsize > m'
        · have hlt := UInt32.lt_iff_toNat_lt.1 hz
          rw [if_pos hz]
          omega
        · have hle := mt UInt32.lt_iff_toNat_lt.2 hz
          rw [if_neg hz]
          omega
      rw [List.foldl_cons, List.foldl_cons, ih _ fun g hg => hs g (List.mem_cons_of_mem _ hg), hstep]
  exact hrun files 0 hs

section

variable {files : List FileEntry} (hs : ∀ f ∈ files, f.st.stSize < 2 ^ 32)
  (hlt : smallestSize files < largestSize files)

include hs

theorem largestSize_lt : largestSize files < 2 ^ 32 := by
  rw [← getCutoffMaxSize_foldl hs]
  exact UInt32.toNat_lt _

/-- The center of the start, where the sum wraps as it may. -/
theorem searchStart_center :
    (searchStart files).1.toNat = (largestSize files + smallestSize files) % 2 ^ 32 / 2 := by
  rw [← getCutoffMinSize_foldl, ← getCutoffMaxSize_foldl hs]
  unfold searchStart
  dsimp only
  rw [UInt32.toNat_div, UInt32.toNat_add]
  rfl

include hlt

theorem searchStart_width : (searchStart files).2.toNat = (largestSize files - smallestSize files) / 2 := by
  rw [← getCutoffMinSize_foldl, ← getCutoffMaxSize_foldl hs] at hlt ⊢
  unfold searchStart
  dsimp only
  rw [UInt32.toNat_div, UInt32.toNat_sub_of_le _ _ (UInt32.le_iff_toNat_le.2 hlt.le)]
  rfl

/-- The start, where the two sizes add up to less than 4 GiB. -/
theorem searchStart_toNat (hsum : smallestSize files + largestSize files < 2 ^ 32) :
    probeOf (searchStart files) = start (smallestSize files) (largestSize files) := by
  unfold probeOf start
  rw [searchStart_center hs, searchStart_width hs hlt, Nat.mod_eq_of_lt (by omega)]

omit hlt in
/-- **Where they do not, the start is below every size.** -/
theorem searchStart_below (hsum : 2 ^ 32 ≤ smallestSize files + largestSize files) :
    (searchStart files).1.toNat < smallestSize files := by
  have hmax := largestSize_lt hs
  rw [searchStart_center hs]
  omega

end

/-- The centers that `get_cutoff_size_bytes` probes. -/
def probedCenters (files : List FileEntry) (upper : UInt32) : List UInt32 :=
  let minSize := files.foldl getCutoffMinSize (UInt32.ofNat (2 ^ 32 - 1))
  let maxSize := files.foldl getCutoffMaxSize 0
  cutoffProbes files upper ((maxSize + minSize) / 2) ((maxSize - minSize) / 2)

/-- **Where the search is** after any moves, if the start did not wrap: within the range, by its width. -/
theorem searchWalk_within {files : List FileEntry} (hs : ∀ f ∈ files, f.st.stSize < 2 ^ 32)
    (hlt : smallestSize files < largestSize files) (hsum : smallestSize files + largestSize files < 2 ^ 32)
    (moves : List Move) :
    (probeOf (moves.foldl searchStep (searchStart files))).Within (smallestSize files) (largestSize files) := by
  have hstart : (probeOf (searchStart files)).Within (smallestSize files) (largestSize files) := by
    rw [searchStart_toNat hs hlt hsum]
    exact start_within hlt.le
  rw [searchWalk_toNat hstart (largestSize_lt hs)]
  exact hstart.walk moves

/-- **Each center is in the range**, and further from its ends than one byte. -/
theorem probedCenters_range {files : List FileEntry} {upper : UInt32} (hs : ∀ f ∈ files, f.st.stSize < 2 ^ 32)
    (hlt : smallestSize files < largestSize files) (hrange : smallestSize files + largestSize files < 2 ^ 32) :
    ∀ c ∈ probedCenters files upper, smallestSize files + 1 < c.toNat ∧ c.toNat + 1 < largestSize files := by
  intro c hc
  obtain ⟨moves, hc, hgo⟩ := cutoffProbes_walk (searchStart files).1 (searchStart files).2 c hc
  have hwidth : 1 < (moves.foldl searchStep (searchStart files)).2.toNat := (half_lt hgo).2
  have hin := searchWalk_within hs hlt hrange moves
  unfold Probe.Within probeOf at hin
  dsimp only [Prod.mk.eta] at hin hc
  rw [hc] at hin
  omega

/-- No probed center is 0. -/
theorem probedCenters_pos {files : List FileEntry} {upper : UInt32} (hs : ∀ f ∈ files, f.st.stSize < 2 ^ 32)
    (hlt : smallestSize files < largestSize files) (hrange : smallestSize files + largestSize files < 2 ^ 32) :
    ∀ c ∈ probedCenters files upper, 0 < c.toNat := by
  intro c hc
  have hin := probedCenters_range hs hlt hrange c hc
  omega

/-- **What `get_cutoff_size_bytes` returns.** -/
theorem getCutoffSizeBytes_eq {files : List FileEntry} (hs : ∀ f ∈ files, f.st.stSize < 2 ^ 32)
    (hlt : smallestSize files < largestSize files) (upper : UInt32) :
    getCutoffSizeBytes files upper = .ok (((probedCenters files upper).filter fun c =>
      files.foldl (getCutoffSum c) 0 < upper).foldl better 0) := by
  have hrange : files.foldl getCutoffMinSize (UInt32.ofNat (2 ^ 32 - 1)) < files.foldl getCutoffMaxSize 0 := by
    rwa [UInt32.lt_iff_toNat_lt, getCutoffMinSize_foldl, getCutoffMaxSize_foldl hs]
  have hpos : files.foldl getCutoffMaxSize 0 > 0 := by
    rw [gt_iff_lt, UInt32.lt_iff_toNat_lt, getCutoffMaxSize_foldl hs, UInt32.toNat_zero]
    omega
  have hwidth : ((files.foldl getCutoffMaxSize 0 - files.foldl getCutoffMinSize (UInt32.ofNat (2 ^ 32 - 1))) / 2).toNat
      < 2 ^ (cutoffRounds + 1) := by
    refine (UInt32.toNat_lt _).trans_le ?_
    rw [cutoffRounds]
    omega
  unfold getCutoffSizeBytes
  simp only
  rw [cAssert_pos hrange, ok_bind, cAssert_pos hpos, ok_bind, cutoffSearch_eq hwidth]
  rfl

/-- **The result is a probed center that keeps to the limit**, or 0. -/
theorem getCutoffSizeBytes_probed {files : List FileEntry} {upper cutoff : UInt32}
    (hs : ∀ f ∈ files, f.st.stSize < 2 ^ 32) (hsum : (files.map minSize).sum < 2 ^ 32)
    (hlt : smallestSize files < largestSize files) (h : getCutoffSizeBytes files upper = .ok cutoff) :
    (cutoff = 0 ∨ cutoff ∈ probedCenters files upper ∧ selectedSum files cutoff.toNat < upper.toNat) ∧
      ∀ c ∈ probedCenters files upper, selectedSum files c.toNat < upper.toNat → c ≤ cutoff := by
  have hfits : ∀ c : UInt32, files.foldl (getCutoffSum c) 0 < upper ↔ selectedSum files c.toNat < upper.toNat := by
    intro c
    rw [UInt32.lt_iff_toNat_lt, getCutoffSum_foldl hs hsum]
  rw [getCutoffSizeBytes_eq hs hlt, Except.ok.injEq] at h
  obtain ⟨hmem, _, hall⟩ := better_foldl ((probedCenters files upper).filter fun c =>
      files.foldl (getCutoffSum c) 0 < upper) 0
  rw [h] at hmem hall
  refine ⟨hmem.imp_right fun hin => ?_, fun c hc hc' => hall c ?_⟩
  · obtain ⟨hin, hsel⟩ := List.mem_filter.1 hin
    exact ⟨hin, (hfits cutoff).1 (of_decide_eq_true hsel)⟩
  · exact List.mem_filter.2 ⟨hc, decide_eq_true ((hfits c).2 hc')⟩

/-! ## The limit -/

/-- The regular files that are embedded have been selected by the cut-off. -/
theorem includedFiles_sublist (files : List FileEntry) (cutoff packUpper : UInt32) :
    ((bucketizeFileList files cutoff packUpper).includedFiles.filter fun f => sIsreg f.st.stMode).Sublist
      (files.filter fun f => minSize f < cutoff.toNat) := by
  rw [bucketizeFileList_eq]
  simp only [List.filter_filter]
  refine List.monotone_filter_right files fun f hf => ?_
  obtain ⟨hreg, hbucket⟩ := Bool.and_eq_true_iff.1 hf
  have hreg : sIsreg f.st.stMode := of_decide_eq_true hreg
  rcases bucketOf_bounds (of_decide_eq_true hbucket) with ⟨_, hlt⟩ | ⟨hb, _⟩ | ⟨hb, _⟩
  · exact decide_eq_true (hlt hreg)
  · cases hb
  · cases hb

/-- **The embedded files keep to the limit**, symlinks apart. -/
theorem getCutoffSizeBytes_budget {files : List FileEntry} (hs : ∀ f ∈ files, f.st.stSize < 2 ^ 32)
    (hsum : (files.map minSize).sum < 2 ^ 32) (hlt : smallestSize files < largestSize files)
    (upper packUpper : UInt32) :
    ∃ cutoff, getCutoffSizeBytes files upper = .ok cutoff ∧
      (((bucketizeFileList files cutoff packUpper).includedFiles.filter fun f => sIsreg f.st.stMode).map minSize).sum
        ≤ upper.toNat := by
  obtain ⟨cutoff, hcutoff⟩ : ∃ cutoff, getCutoffSizeBytes files upper = .ok cutoff :=
    ⟨_, getCutoffSizeBytes_eq hs hlt upper⟩
  refine ⟨cutoff, hcutoff, ?_⟩
  have hembedded := ((includedFiles_sublist files cutoff packUpper).map minSize).sum_le_sum fun _ _ => Nat.zero_le _
  refine hembedded.trans ?_
  change selectedSum files cutoff.toNat ≤ upper.toNat
  rcases (getCutoffSizeBytes_probed hs hsum hlt hcutoff).1 with rfl | ⟨_, hfits⟩
  · rw [UInt32.toNat_zero, selectedSum_zero]
    exact Nat.zero_le _
  · exact hfits.le

/-- Files of 4 and 20 kilobytes that do not compress. -/
def incompressibleFiles : List FileEntry := [fileOfSizes 4096 4107, fileOfSizes 20480 20497]

/-- With a limit of 8 kilobytes the smaller file is embedded. -/
theorem getCutoffSizeBytes_budget_incompressible : ∃ cutoff, getCutoffSizeBytes incompressibleFiles 8192 = .ok cutoff ∧
    (((bucketizeFileList incompressibleFiles cutoff 65536).includedFiles.filter fun f =>
      sIsreg f.st.stMode).map minSize).sum ≤ 8192 :=
  have hs : ∀ f ∈ incompressibleFiles, f.st.stSize < 2 ^ 32 := by decide
  getCutoffSizeBytes_budget hs (by decide) (by decide) 8192 65536

/-! ## The best center -/

/-- The largest of the probed centers whose files fit into the limit, or 0 if there is none. -/
def BestProbe (files : List FileEntry) (upper cutoff : UInt32) : Prop :=
  (cutoff ∈ probedCenters files upper ∧ selectedSum files cutoff.toNat ≤ upper.toNat ∧
    ∀ c ∈ probedCenters files upper, selectedSum files c.toNat ≤ upper.toNat → c ≤ cutoff) ∨
  (cutoff = 0 ∧ ∀ c ∈ probedCenters files upper, ¬ selectedSum files c.toNat ≤ upper.toNat)

/-- **The search returns the best probed center** exactly when no sum meets the limit: such a center is neither
noted nor left. -/
theorem getCutoffSizeBytes_best_iff {files : List FileEntry} (hs : ∀ f ∈ files, f.st.stSize < 2 ^ 32)
    (hsum : (files.map minSize).sum < 2 ^ 32) (hlt : smallestSize files < largestSize files)
    (hrange : smallestSize files + largestSize files < 2 ^ 32) (upper : UInt32) :
    ∃ cutoff, getCutoffSizeBytes files upper = .ok cutoff ∧
      (BestProbe files upper cutoff ↔
        ∀ c ∈ probedCenters files upper, selectedSum files c.toNat ≠ upper.toNat) := by
  obtain ⟨cutoff, hcutoff⟩ : ∃ cutoff, getCutoffSizeBytes files upper = .ok cutoff :=
    ⟨_, getCutoffSizeBytes_eq hs hlt upper⟩
  refine ⟨cutoff, hcutoff, ?_⟩
  obtain ⟨hprobed, hall⟩ := getCutoffSizeBytes_probed hs hsum hlt hcutoff
  constructor
  · intro hbest c hc heq
    -- a center that meets the limit fits, so the best center is not below it
    rcases hbest with ⟨_, _, hmax⟩ | ⟨_, hnone⟩
    · have hle : c.toNat ≤ cutoff.toNat := UInt32.le_iff_toNat_le.1 (hmax c hc heq.le)
      rcases hprobed with rfl | ⟨_, hfits⟩
      · have hpos := probedCenters_pos hs hlt hrange c hc
        rw [UInt32.toNat_zero] at hle
        omega
      · have hmono := selectedSum_mono files hle
        omega
    · exact hnone c hc heq.le
  · intro hmiss
    -- what fits is below the limit, and such centers are noted
    have hfits : ∀ c ∈ probedCenters files upper, selectedSum files c.toNat ≤ upper.toNat → c ≤ cutoff := by
      intro c hc hle
      exact hall c hc (lt_of_le_of_ne hle (hmiss c hc))
    rcases hprobed with rfl | ⟨hin, hfit⟩
    · refine .inr ⟨rfl, fun c hc hle => ?_⟩
      have hpos := probedCenters_pos hs hlt hrange c hc
      have hzero := UInt32.le_iff_toNat_le.1 (hfits c hc hle)
      rw [UInt32.toNat_zero] at hzero
      omega
    · exact .inl ⟨hin, hfit.le, hfits⟩

/-- With a limit of 8 kilobytes no sum meets the limit, and the search returns the best center. -/
theorem getCutoffSizeBytes_best_iff_incompressible :
    ∃ cutoff, getCutoffSizeBytes incompressibleFiles 8192 = .ok cutoff ∧
      (BestProbe incompressibleFiles 8192 cutoff ↔
        ∀ c ∈ probedCenters incompressibleFiles 8192, selectedSum incompressibleFiles c.toNat ≠ (8192 : UInt32).toNat) :=
  getCutoffSizeBytes_best_iff (by decide) (by decide) (by decide) (by decide) 8192

/-- **A center is forgotten.** With a limit of 4 kilobytes, the first center selects exactly the smaller file, and
the search stays there and returns 0. -/
theorem getCutoffSizeBytes_forgets : getCutoffSizeBytes incompressibleFiles 4096 = .ok 0 ∧
    12296 ∈ probedCenters incompressibleFiles 4096 ∧ selectedSum incompressibleFiles 12296 = 4096 ∧
    ¬ BestProbe incompressibleFiles 4096 0 := by
  have hsum : selectedSum incompressibleFiles (12296 : UInt32).toNat = 4096 := by decide
  have hprobe : 12296 ∈ probedCenters incompressibleFiles 4096 := by
    have hfirst : probedCenters incompressibleFiles 4096 = cutoffProbes incompressibleFiles 4096 12296 8200 := by
      congr 1
    rw [hfirst, cutoffProbes, if_pos (by decide)]
    exact List.mem_cons_self
  refine ⟨by decide, hprobe, hsum, ?_⟩
  rintro (⟨_, _, hmax⟩ | ⟨_, hnone⟩)
  · exact absurd (hmax 12296 hprobe hsum.le) (by decide)
  · exact hnone 12296 hprobe hsum.le

end Sfmf

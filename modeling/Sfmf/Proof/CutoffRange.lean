import Sfmf.Proof.Cutoff

/-!
# The range of the cut-off search

`get_cutoff_size_bytes` starts in the middle of the range of sizes and halves its width in each
round, in 32 bits.

* `searchWalk_ends`: the loop ends wherever it starts.
* `cutoffSearch_inRange_iff`: the search stays in the range exactly when the smallest and the
  largest size add up to less than 4 GiB.
* `cutoffSearch_leaves_range`: two files for which it starts below both.
-/

namespace Sfmf

open Halving

/-- What it takes for the search of `get_cutoff_size_bytes` to stay in the range of sizes. -/
structure SearchInRange (files : List FileEntry) (upper : UInt32) : Prop where
  /-- The sum and the difference that the start is computed from fit into 32 bits. -/
  sum : (files.foldl getCutoffMaxSize 0 + files.foldl getCutoffMinSize (UInt32.ofNat (2 ^ 32 - 1))).toNat =
    largestSize files + smallestSize files
  diff : (files.foldl getCutoffMaxSize 0 - files.foldl getCutoffMinSize (UInt32.ofNat (2 ^ 32 - 1))).toNat +
    smallestSize files = largestSize files
  /-- After any moves, the center is in the range and neither of the next moves wraps. -/
  moves : ∀ moves : List Move, (moves.foldl searchStep (searchStart files)).2 > 1 →
    let s := moves.foldl searchStep (searchStart files)
    smallestSize files ≤ s.1.toNat ∧ s.1.toNat ≤ largestSize files ∧
      (s.1 - s.2 / 2).toNat + (s.2 / 2).toNat = s.1.toNat ∧ (s.1 + s.2 / 2).toNat = s.1.toNat + (s.2 / 2).toNat
  /-- So is what is probed for this limit. -/
  probed : ∀ c ∈ probedCenters files upper, smallestSize files ≤ c.toNat ∧ c.toNat ≤ largestSize files
  /-- The loop ends: no moves keep the width up, and more rounds change nothing. -/
  ends : ∀ moves : List Move, cutoffRounds ≤ moves.length → ¬ (moves.foldl searchStep (searchStart files)).2 > 1
  rounds : ∀ k, cutoffSearch files upper (cutoffRounds + k) (searchStart files).1 (searchStart files).2 0 =
    cutoffSearch files upper cutoffRounds (searchStart files).1 (searchStart files).2 0

/-- The loop ends wherever it starts. -/
theorem searchWalk_ends (s : UInt32 × UInt32) (moves : List Move) (h : cutoffRounds ≤ moves.length) :
    ¬ (moves.foldl searchStep s).2 > 1 := by
  intro hgo
  have hone := (half_lt hgo).2
  have hpow : 2 ^ 32 ≤ 2 ^ moves.length := Nat.pow_le_pow_right (by omega) h
  have hwidth := s.2.toNat_lt
  rw [searchWalk_width, Nat.div_eq_of_lt (by omega)] at hone
  omega

/-- **The search stays in the range** of sizes, without a step that wraps, exactly when the smallest and the
largest size add up to less than 4 GiB. -/
theorem cutoffSearch_inRange_iff {files : List FileEntry} (hs : ∀ f ∈ files, f.st.stSize < 2 ^ 32)
    (hlt : smallestSize files < largestSize files) (upper : UInt32) :
    SearchInRange files upper ↔ smallestSize files + largestSize files < 2 ^ 32 := by
  constructor
  · intro h
    have hsum := h.sum
    have hfits := UInt32.toNat_lt (files.foldl getCutoffMaxSize 0 +
      files.foldl getCutoffMinSize (UInt32.ofNat (2 ^ 32 - 1)))
    omega
  intro hsum
  have hmax := largestSize_lt hs
  refine ⟨?_, ?_, fun moves _ => ?_, fun c hc => ?_, fun moves => searchWalk_ends _ moves, fun k => ?_⟩
  · rw [UInt32.toNat_add, getCutoffMinSize_foldl, getCutoffMaxSize_foldl hs, Nat.mod_eq_of_lt (by omega)]
  · have hle : files.foldl getCutoffMinSize (UInt32.ofNat (2 ^ 32 - 1)) ≤ files.foldl getCutoffMaxSize 0 := by
      rw [UInt32.le_iff_toNat_le, getCutoffMinSize_foldl, getCutoffMaxSize_foldl hs]
      exact hlt.le
    rw [UInt32.toNat_sub_of_le _ _ hle, getCutoffMinSize_foldl, getCutoffMaxSize_foldl hs]
    omega
  · have hin := searchWalk_within hs hlt hsum moves
    -- a round without wrap-around is the one on the numbers
    have hdown := congrArg Probe.center (probeOf_step hin hmax .down)
    have hup := congrArg Probe.center (probeOf_step hin hmax .up)
    have hhalf : ((moves.foldl searchStep (searchStart files)).2 / 2).toNat =
      (moves.foldl searchStep (searchStart files)).2.toNat / 2 := UInt32.toNat_div _ 2
    unfold Probe.Within at hin
    simp only [probeOf, searchStep, Probe.step] at hin hdown hup ⊢
    omega
  · have hin := probedCenters_range hs hlt hsum c hc
    omega
  · apply cutoffSearch_rounds
    refine (UInt32.toNat_lt _).trans_le ?_
    rw [cutoffRounds]
    omega

/-- The search for the files of 4 and 20 kilobytes stays in the range. -/
theorem cutoffSearch_inRange_incompressible : SearchInRange incompressibleFiles 8192 :=
  (cutoffSearch_inRange_iff (by decide) (by decide) 8192).2 (by decide)

/-- Files of 2 and 3 GiB that do not compress. -/
def hugeFiles : List FileEntry := [fileOfSizes 2147483648 2147484308, fileOfSizes 3221225472 3221226457]

/-- **The search leaves the range.** For files of 2 and 3 GiB, the sum of the two sizes wraps, and the first center
is at 512 MiB. -/
theorem cutoffSearch_leaves_range : ¬ SearchInRange hugeFiles 8192 ∧
    ∃ c ∈ probedCenters hugeFiles 8192, c.toNat < smallestSize hugeFiles := by
  have hfirst : probedCenters hugeFiles 8192 =
      cutoffProbes hugeFiles 8192 (searchStart hugeFiles).1 (searchStart hugeFiles).2 := rfl
  have hmem : (searchStart hugeFiles).1 ∈ probedCenters hugeFiles 8192 := by
    rw [hfirst, cutoffProbes, if_pos (by decide)]
    exact List.mem_cons_self
  have hsizes : ∀ f ∈ hugeFiles, f.st.stSize < 2 ^ 32 := by decide
  have hbelow := searchStart_below hsizes (by decide)
  refine ⟨fun h => ?_, _, hmem, hbelow⟩
  have hin := (h.probed _ hmem).1
  omega

end Sfmf

import Sfmf.Spec.Options
import Sfmf.Proof.FileEntry

/-!
# The sizes on the command line

`parse_int_into` takes any number that a `long` holds and keeps the lower 32 bits of it; the
limits in bytes are 1024 times these, in 32 bits again.

* `parseIntInto_iff`: the strings that are taken, and what becomes of their numbers.
* `parseOpts_ok`: what an argument vector that is taken looks like.
* `sizesAsTyped_iff`: the limits are those that were typed exactly when all three numbers are
  from 0 to 4194303.
-/

namespace Sfmf

/-- **What `parse_int_into` takes**: decimal numbers within a `long`, of which it keeps the lower 32 bits. -/
theorem parseIntInto_iff {arg : CString} {size : UInt32} : parseIntInto arg = some size ↔
    ∃ n, Decimal arg.val n ∧ longMin < n ∧ n < longMax ∧ size = UInt32.ofInt n := by
  unfold parseIntInto
  by_cases hnil : arg.val = []
  · rw [hnil]
    constructor
    · intro h
      simp at h
    · rintro ⟨n, hdec, _⟩
      cases hdec.scan
  generalize hstr : strtol arg.val = r
  obtain ⟨tmp, endptr⟩ := r
  have hwhole := fun n : ℤ => strtol_whole hnil (n := n)
  simp only [hstr, Prod.mk.injEq] at hwhole
  dsimp only
  constructor
  · intro h
    split at h
    · rename_i htaken
      obtain ⟨hdec, hmin, hmax⟩ := (hwhole tmp).1 ⟨⟨rfl, htaken.2.2.2⟩, htaken.1, htaken.2.1⟩
      exact ⟨tmp, hdec, hmin, hmax, (Option.some.inj h).symm⟩
    · cases h
  · rintro ⟨n, hdec, hmin, hmax, rfl⟩
    obtain ⟨⟨rfl, rfl⟩, hmin, hmax⟩ := (hwhole n).2 ⟨hdec, hmin, hmax⟩
    rw [if_pos ⟨hmin, hmax, hnil, rfl⟩]

theorem parseSize_ok {arg : CString} {size : UInt32} : parseSize arg = .ok size ↔ parseIntInto arg = some size := by
  unfold parseSize
  cases parseIntInto arg with
  | none => simp
  | some _ => simp

/-- **What an argument vector that is taken looks like.** -/
theorem parseOpts_ok {argv : List CString} {a : PackArguments} (h : parseOpts argv = .ok a) :
    ∃ progname blobUpper packUpper avgPack,
      argv = [progname, a.opts.inDir, a.outDir, a.metaFile, blobUpper, packUpper, avgPack] ∧
      parseIntInto blobUpper = some a.opts.blobUpperKb ∧ parseIntInto packUpper = some a.opts.packUpperKb ∧
      parseIntInto avgPack = some a.opts.avgPackKb ∧ a.opts.packUpperKb ≤ a.opts.avgPackKb := by
  unfold parseOpts at h
  split at h
  · rename_i progname inDir outDir metaFile blobUpper packUpper avgPack
    cases hblob : parseSize blobUpper with
    | error w => rw [hblob] at h; cases h
    | ok blobUpperKb =>
    cases hpack : parseSize packUpper with
    | error w => rw [hblob, hpack] at h; cases h
    | ok packUpperKb =>
    cases havg : parseSize avgPack with
    | error w => rw [hblob, hpack, havg] at h; cases h
    | ok avgPackKb =>
    rw [hblob, hpack, havg] at h
    change (if avgPackKb < packUpperKb then _ else _) = _ at h
    split at h
    · cases h
    · rename_i hle
      obtain rfl := Except.ok.inj h
      exact ⟨progname, blobUpper, packUpper, avgPack, rfl, parseSize_ok.1 hblob, parseSize_ok.1 hpack,
        parseSize_ok.1 havg, UInt32.not_lt.1 hle⟩
  · cases h

/-! ## Limits in bytes -/

/-- The number that is typed as an argument. -/
def TypedNumber (argv : List CString) (i : ℕ) (n : ℤ) : Prop := ∃ arg, argv[i]? = some arg ∧ Decimal arg.val n

/-- **The limits are those that were typed**, in KiB: those of `get_cutoff_size_bytes`, `bucketize_file_list` and
`make_packs`, and a pack of the largest size fits into a bin. -/
structure SizesAsTyped (argv : List CString) (a : PackArguments) : Prop where
  blob : ∃ n, TypedNumber argv 4 n ∧ ((a.opts.blobUpperKb * 1024).toNat : ℤ) = 1024 * n
  pack : ∃ n, TypedNumber argv 5 n ∧ ((a.opts.packUpperKb * 1024).toNat : ℤ) = 1024 * n
  avg : ∃ n, TypedNumber argv 6 n ∧ ((a.opts.avgPackKb * 1024).toNat : ℤ) = 1024 * n
  order : a.opts.packUpperKb * 1024 ≤ a.opts.avgPackKb * 1024

theorem toNat_ofInt (n : ℤ) : ((UInt32.ofInt n).toNat : ℤ) = n % 2 ^ 32 := by
  have hmod : n % 2 ^ 32 < 2 ^ 32 := Int.emod_lt_of_pos n (by norm_num)
  have hpos : 0 ≤ n % 2 ^ 32 := Int.emod_nonneg n (by norm_num)
  rw [UInt32.ofInt, ofNat_toNat_of_lt (by omega), Int.toNat_of_nonneg hpos]

theorem toNat_kib (size : UInt32) : (size * 1024).toNat = size.toNat * 1024 % 2 ^ 32 := UInt32.toNat_mul size 1024

/-- **One limit**: neither narrowing nor the product changes a number from 0 to 4194303, and any other is
changed. -/
theorem limit_typed_iff (n : ℤ) :
    ((UInt32.ofInt n * 1024).toNat : ℤ) = 1024 * n ↔ 0 ≤ n ∧ n < 2 ^ 22 := by
  have hnarrow := toNat_ofInt n
  rw [toNat_kib]
  omega

theorem typedNumber_unique {argv : List CString} {i : ℕ} {m n : ℤ} (hm : TypedNumber argv i m)
    (hn : TypedNumber argv i n) : m = n := by
  obtain ⟨arg, harg, hdec⟩ := hm
  obtain ⟨arg', harg', hdec'⟩ := hn
  rw [harg, Option.some.injEq] at harg'
  subst harg'
  exact hdec.unique hdec'

/-- One of the limits, by its place on the command line. -/
theorem limit_iff {argv : List CString} {i : ℕ} {arg : CString} {size : UInt32} (harg : argv[i]? = some arg)
    (hsize : parseIntInto arg = some size) :
    (∃ n, TypedNumber argv i n ∧ ((size * 1024).toNat : ℤ) = 1024 * n) ↔
      ∀ n, TypedNumber argv i n → 0 ≤ n ∧ n < 2 ^ 22 := by
  obtain ⟨m, hdec, _, _, rfl⟩ := parseIntInto_iff.1 hsize
  have htyped : TypedNumber argv i m := ⟨arg, harg, hdec⟩
  constructor
  · rintro ⟨n, hn, hlimit⟩ n' hn'
    rw [typedNumber_unique hn htyped] at hlimit
    rw [typedNumber_unique hn' htyped]
    exact (limit_typed_iff m).1 hlimit
  · intro hall
    exact ⟨m, htyped, (limit_typed_iff m).2 (hall m htyped)⟩

/-- A number below 4194304 is what is stored. -/
theorem size_lt {argv : List CString} {i : ℕ} {arg : CString} {size : UInt32} (harg : argv[i]? = some arg)
    (hsize : parseIntInto arg = some size) (hall : ∀ n, TypedNumber argv i n → 0 ≤ n ∧ n < 2 ^ 22) :
    size.toNat < 2 ^ 22 := by
  obtain ⟨n, hdec, _, _, rfl⟩ := parseIntInto_iff.1 hsize
  have hn := hall n ⟨arg, harg, hdec⟩
  have hnarrow := toNat_ofInt n
  omega

/-- **The limits in bytes are those that were typed** exactly when all three numbers are from 0 to 4194303. -/
theorem sizesAsTyped_iff {argv : List CString} {a : PackArguments} (h : parseOpts argv = .ok a) :
    SizesAsTyped argv a ↔ ∀ i ∈ [4, 5, 6], ∀ n, TypedNumber argv i n → 0 ≤ n ∧ n < 2 ^ 22 := by
  obtain ⟨progname, blobUpper, packUpper, avgPack, hargv, hblob, hpack, havg, hle⟩ := parseOpts_ok h
  have hb : argv[4]? = some blobUpper := by rw [hargv]; rfl
  have hp : argv[5]? = some packUpper := by rw [hargv]; rfl
  have ha : argv[6]? = some avgPack := by rw [hargv]; rfl
  simp only [List.forall_mem_cons, List.not_mem_nil, false_imp_iff, forall_const, and_true]
  constructor
  · intro T
    exact ⟨(limit_iff hb hblob).1 T.blob, (limit_iff hp hpack).1 T.pack, (limit_iff ha havg).1 T.avg⟩
  · rintro ⟨tblob, tpack, tavg⟩
    refine ⟨(limit_iff hb hblob).2 tblob, (limit_iff hp hpack).2 tpack, (limit_iff ha havg).2 tavg, ?_⟩
    -- without wrap-around, the order is that of the KiB
    have hpl := size_lt hp hpack tpack
    have hal := size_lt ha havg tavg
    rw [UInt32.le_iff_toNat_le] at hle
    rw [UInt32.le_iff_toNat_le, toNat_kib, toNat_kib]
    omega

/-- `sfmf-pack d o m` with three sizes. -/
def sizeArguments (blobUpper packUpper avgPack : CString) : List CString :=
  [⟨str ['s', 'f', 'm', 'f', '-', 'p', 'a', 'c', 'k'], by decide⟩, letterDir, ⟨str ['o'], by decide⟩,
    ⟨str ['m'], by decide⟩, blobUpper, packUpper, avgPack]

/-- With the sizes 8, 16 and 64. -/
theorem sizesAsTyped_small : ∃ a,
    parseOpts (sizeArguments ⟨str ['8'], by decide⟩ ⟨str ['1', '6'], by decide⟩ ⟨str ['6', '4'], by decide⟩) = .ok a ∧
    SizesAsTyped (sizeArguments ⟨str ['8'], by decide⟩ ⟨str ['1', '6'], by decide⟩ ⟨str ['6', '4'], by decide⟩) a := by
  obtain ⟨a, ha⟩ : ∃ a, parseOpts (sizeArguments ⟨str ['8'], by decide⟩ ⟨str ['1', '6'], by decide⟩
      ⟨str ['6', '4'], by decide⟩) = .ok a := ⟨_, rfl⟩
  refine ⟨a, ha, (sizesAsTyped_iff ha).2 fun i hi n hn => ?_⟩
  obtain ⟨arg, harg, hdec⟩ := hn
  have hscan := hdec.scan
  simp only [List.mem_cons, List.not_mem_nil, or_false] at hi
  rcases hi with rfl | rfl | rfl <;> cases harg <;> cases hscan <;> decide

/-- **Sizes that are taken and mean something else**: 4194304 KiB are a limit of 0 bytes, as are bins of as many KiB
that are to hold packs of 1 KiB, and -1 KiB are 4 GiB less one KiB. -/
theorem sizesAsTyped_wraps :
    (∃ a, parseOpts (sizeArguments ⟨str ['4', '1', '9', '4', '3', '0', '4'], by decide⟩ ⟨str ['1'], by decide⟩
        ⟨str ['4', '1', '9', '4', '3', '0', '4'], by decide⟩) = .ok a ∧
      a.opts.blobUpperKb * 1024 = 0 ∧ a.opts.avgPackKb * 1024 = 0 ∧ a.opts.packUpperKb * 1024 = 1024 ∧
      ¬ SizesAsTyped (sizeArguments ⟨str ['4', '1', '9', '4', '3', '0', '4'], by decide⟩ ⟨str ['1'], by decide⟩
        ⟨str ['4', '1', '9', '4', '3', '0', '4'], by decide⟩) a) ∧
    ∃ a, parseOpts (sizeArguments ⟨str ['-', '1'], by decide⟩ ⟨str ['1'], by decide⟩ ⟨str ['1'], by decide⟩) = .ok a ∧
      a.opts.blobUpperKb * 1024 = 4294966272 ∧
      ¬ SizesAsTyped (sizeArguments ⟨str ['-', '1'], by decide⟩ ⟨str ['1'], by decide⟩ ⟨str ['1'], by decide⟩) a := by
  refine ⟨⟨_, rfl, by decide, by decide, by decide, fun T => ?_⟩, _, rfl, by decide, fun T => ?_⟩
  · exact absurd T.order (by decide)
  · obtain ⟨n, ⟨arg, harg, hdec⟩, hlimit⟩ := T.blob
    have hscan := hdec.scan
    cases harg
    cases hscan
    exact absurd hlimit (by decide)

end Sfmf

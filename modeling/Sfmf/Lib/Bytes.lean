import Mathlib.Tactic
import Mathlib.Data.List.Basic

/-!
# Byte strings, big-endian fields and tables of records

* `be`, `ofBe`: a number as `k` big-endian bytes, and back (`ofBe_be`).
* `slice`: the bytes `[off, off + len)` of a string.
* `offset`, `slice_flatten`: in a concatenation of parts, the slice at the sum of the
  lengths of the earlier parts is the part.
* `fread`: a one-item read from a stream position (`fread_at`).
* `readTable`: `n` reads of one record after another, and `readTable_at`:
  it gives back a table that was written record by record.
* `readTable_take`: what it gives back of a file that is cut short.
-/

namespace Sfmf

/-- A byte string. -/
abbrev Bytes := List UInt8

/-! ## Big-endian numbers -/

/-- The low `k` bytes of `n`, most significant first. -/
def be : ℕ → ℕ → Bytes
  | 0, _ => []
  | k + 1, n => UInt8.ofNat (n / 256 ^ k) :: be k n

/-- The number whose big-endian bytes are given. -/
def ofBe (b : Bytes) : ℕ := b.foldl (fun n x => n * 256 + x.toNat) 0

@[simp] theorem be_length (k n : ℕ) : (be k n).length = k := by
  induction k with
  | zero => rfl
  | succ k ih => simp [be, ih]

theorem ofBe_foldl (b : Bytes) (m : ℕ) :
    b.foldl (fun n x => n * 256 + x.toNat) m = m * 256 ^ b.length + ofBe b := by
  induction b generalizing m with
  | nil => simp [ofBe]
  | cons x b ih =>
    unfold ofBe
    simp only [List.foldl_cons, List.length_cons, Nat.zero_mul, Nat.zero_add]
    rw [ih, ih x.toNat, pow_succ]; ring

theorem ofBe_cons (x : UInt8) (b : Bytes) : ofBe (x :: b) = x.toNat * 256 ^ b.length + ofBe b := by
  conv_lhs => unfold ofBe
  simp only [List.foldl_cons, Nat.zero_mul, Nat.zero_add]
  exact ofBe_foldl b x.toNat

theorem ofBe_be_mod (k n : ℕ) : ofBe (be k n) = n % 256 ^ k := by
  induction k with
  | zero => simp [be, ofBe, Nat.mod_one]
  | succ k ih =>
    rw [be, ofBe_cons, be_length, ih, UInt8.toNat_ofNat', show 2 ^ 8 = 256 from rfl,
      Nat.pow_succ, Nat.mod_mul, Nat.add_comm, Nat.mul_comm (256 ^ k)]

/-- **A big-endian number reads back as itself.** -/
theorem ofBe_be {k n : ℕ} (h : n < 256 ^ k) : ofBe (be k n) = n := by
  rw [ofBe_be_mod, Nat.mod_eq_of_lt h]

/-- The high bytes and the low bytes of a number. -/
theorem be_add (j k n : ℕ) : be (j + k) n = be j (n / 256 ^ k) ++ be k n := by
  induction j with
  | zero => rw [Nat.zero_add]; rfl
  | succ j ih =>
    rw [Nat.succ_add, be, be, ih, Nat.div_div_eq_div_mul, ← pow_add, Nat.add_comm k j]
    rfl

/-- The low bytes do not depend on what is above them. -/
theorem be_congr {k m n : ℕ} (h : m % 256 ^ k = n % 256 ^ k) : be k m = be k n := by
  induction k with
  | zero => rfl
  | succ k ih =>
    have hlow : m % 256 ^ k = n % 256 ^ k := by
      have := congrArg (· % 256 ^ k) h
      simpa [Nat.mod_mod_of_dvd _ (Dvd.intro _ rfl : 256 ^ k ∣ 256 ^ (k + 1))] using this
    have hdigit : m / 256 ^ k % 256 = n / 256 ^ k % 256 := by
      rw [← Nat.mod_mul_right_div_self, ← Nat.mod_mul_right_div_self, ← pow_succ, h]
    rw [be, be, ih hlow]
    congr 1
    exact UInt8.toNat_inj.1 (by simpa using hdigit)

/-! ## Slices -/

/-- The bytes `[off, off + len)`. -/
def slice (d : Bytes) (off len : ℕ) : Bytes := (d.drop off).take len

theorem slice_mid (p m s : Bytes) : slice (p ++ m ++ s) p.length m.length = m := by
  simp [slice, List.append_assoc]

theorem slice_eq_mid {p m s : Bytes} {off len : ℕ} (ho : off = p.length) (hl : len = m.length) :
    slice (p ++ m ++ s) off len = m := by subst ho hl; exact slice_mid p m s

@[simp] theorem slice_append_right {d e : Bytes} {off len : ℕ} :
    slice (d ++ e) (d.length + off) len = slice e off len := by
  simp only [slice, List.drop_append, List.drop_eq_nil_of_le (Nat.le_add_right _ _),
    List.nil_append, Nat.add_sub_cancel_left]

/-- A slice and what is behind it. -/
theorem slice_left (d : Bytes) {off len : ℕ} (h : len ≤ d.length - off) :
    (slice d off len).length + (d.length - (off + len)) = d.length - off := by
  rw [slice, List.length_take, List.length_drop]
  omega

/-! ## Parts one after another -/

/-- Where the `i`-th of parts with these sizes starts. -/
def offset (sizes : List ℕ) (i : ℕ) : ℕ := (sizes.take i).sum

@[simp] theorem offset_zero (sizes : List ℕ) : offset sizes 0 = 0 := by simp [offset]

@[simp] theorem offset_cons_succ (n : ℕ) (sizes : List ℕ) (i : ℕ) :
    offset (n :: sizes) (i + 1) = n + offset sizes i := by simp [offset]

@[simp] theorem offset_length (sizes : List ℕ) : offset sizes sizes.length = sizes.sum := by simp [offset]

/-- A part ends where the next one starts. -/
theorem offset_succ {sizes : List ℕ} {i n : ℕ} (h : sizes[i]? = some n) :
    offset sizes (i + 1) = offset sizes i + n := by
  obtain ⟨hi, rfl⟩ := List.getElem?_eq_some_iff.1 h
  rw [offset, List.take_add_one, List.getElem?_eq_getElem hi, Option.toList_some, List.sum_append]
  simp [offset]

theorem offset_le_sum (sizes : List ℕ) (i : ℕ) : offset sizes i ≤ sizes.sum := by
  conv_rhs => rw [← List.take_append_drop i sizes, List.sum_append]
  exact Nat.le_add_right _ _

theorem offset_add_le {sizes : List ℕ} {i n : ℕ} (h : sizes[i]? = some n) : offset sizes i + n ≤ sizes.sum := by
  rw [← offset_succ h]
  exact offset_le_sum _ _

theorem offset_mono {sizes : List ℕ} {i j : ℕ} (h : i ≤ j) : offset sizes i ≤ offset sizes j := by
  induction j, h using Nat.le_induction with
  | base => exact le_rfl
  | succ j _ ih =>
    refine ih.trans ?_
    cases hj : sizes[j]? with
    | none => simp [offset, List.take_add_one, hj]
    | some n => rw [offset_succ hj]; omega

/-- A concatenation, taken apart at one of its parts. -/
theorem flatten_split {ps : List Bytes} {i : ℕ} {p : Bytes} (hp : ps[i]? = some p) :
    ∃ a b, ps.flatten = a ++ p ++ b ∧ a.length = offset (ps.map List.length) i := by
  obtain ⟨hi, rfl⟩ := List.getElem?_eq_some_iff.1 hp
  refine ⟨(ps.take i).flatten, (ps.drop (i + 1)).flatten, ?_, by rw [List.length_flatten, offset, List.map_take]⟩
  conv_lhs => rw [← List.take_append_drop i ps, List.drop_eq_getElem_cons hi]
  rw [List.flatten_append, List.flatten_cons, List.append_assoc]

/-- **The part of a concatenation** at the sum of the earlier lengths. -/
theorem slice_flatten {ps : List Bytes} {i : ℕ} {p : Bytes} (hp : ps[i]? = some p) :
    slice ps.flatten (offset (ps.map List.length) i) p.length = p := by
  obtain ⟨a, b, hab, ha⟩ := flatten_split hp
  rw [hab]
  exact slice_eq_mid ha.symm rfl

/-- The same behind another string. -/
theorem slice_flatten_behind {d : Bytes} {ps : List Bytes} {i : ℕ} {p : Bytes} (hp : ps[i]? = some p) :
    slice (d ++ ps.flatten) (d.length + offset (ps.map List.length) i) p.length = p := by
  rw [slice_append_right, slice_flatten hp]

/-! ## Streams of records -/

/-- `fread(buf, n, 1, fp)` on a file with content `d` at position `pos`: the item,
if it is there in full, and the new position. A short read leaves the stream at
the end of the file; an item of no bytes is never read. -/
def fread (d : Bytes) (pos n : ℕ) : Option Bytes × ℕ :=
  if n = 0 then (none, pos)
  else if pos + n ≤ d.length then (some (slice d pos n), pos + n)
  else (none, max pos d.length)

theorem fread_mid {p m s : Bytes} (hm : m ≠ []) :
    fread (p ++ m ++ s) p.length m.length = (some m, p.length + m.length) := by
  have : m.length ≠ 0 := by simpa using hm
  unfold fread
  rw [if_neg this, if_pos (by simp), slice_mid]

/-- **A read of the part `m`** of a string that is split there. -/
theorem fread_at {d m : Bytes} {pos n : ℕ} (p s : Bytes) (hd : d = p ++ m ++ s) (hm : m ≠ [])
    (hp : pos = p.length) (hn : n = m.length) : fread d pos n = (some m, pos + n) := by
  subst hd hp hn; exact fread_mid hm

theorem fread_slice {d : Bytes} {pos n : ℕ} (hn : n ≠ 0) (h : pos + n ≤ d.length) :
    fread d pos n = (some (slice d pos n), pos + n) := by
  simp [fread, hn, h]

/-- What is read stands there. -/
theorem fread_some {d b : Bytes} {pos n : ℕ} (h : (fread d pos n).1 = some b) : b = slice d pos n := by
  unfold fread at h
  split at h
  · cases h
  · split at h
    · exact (Option.some.inj h).symm
    · cases h

variable {ρ : Type}

/-- `n` reads of a record of `size` bytes, one after another. A record that
cannot be read keeps the value `zero` it was allocated with. -/
def readTable (d : Bytes) (size : ℕ) (decode : Bytes → ρ) (zero : ρ) : ℕ → ℕ → List ρ × ℕ
  | 0, pos => ([], pos)
  | n + 1, pos =>
    let (b, pos) := fread d pos size
    let r := match b with
      | some b => decode b
      | none => zero
    let (rs, pos) := readTable d size decode zero n pos
    (r :: rs, pos)

theorem flatMap_length_const {α : Type} {f : α → Bytes} {size : ℕ} (hf : ∀ a, (f a).length = size)
    (l : List α) : (l.flatMap f).length = size * l.length := by
  induction l with
  | nil => simp
  | cons a l ih => simp [hf, ih]; ring

/-- The bytes of one of the records. -/
theorem slice_flatMap_const {α : Type} {f : α → Bytes} {size : ℕ} (hf : ∀ a, (f a).length = size) {l : List α} {i : ℕ}
    {a : α} (h : l[i]? = some a) : slice (l.flatMap f) (size * i) size = f a := by
  induction l generalizing i with
  | nil => cases h
  | cons b l ih =>
    rw [List.flatMap_cons]
    cases i with
    | zero =>
      cases h
      exact List.take_left' (hf a)
    | succ i =>
      rw [Nat.mul_succ, Nat.add_comm, ← hf b, slice_append_right, hf b]
      exact ih h

theorem encode_ne_nil {size : ℕ} {r : Bytes} (hsize : 0 < size) (hlen : r.length = size) : r ≠ [] :=
  List.ne_nil_of_length_pos (hlen ▸ hsize)

theorem readTable_length (d : Bytes) (size : ℕ) (decode : Bytes → ρ) (zero : ρ) (n pos : ℕ) :
    (readTable d size decode zero n pos).1.length = n := by
  induction n generalizing pos with
  | zero => rfl
  | succ n ih => simp only [readTable, List.length_cons, ih]

/-- **A table reads back** as the records it was written from. -/
theorem readTable_at {d : Bytes} {size : ℕ} {encode : ρ → Bytes} {decode : Bytes → ρ} {zero : ρ}
    (hsize : 0 < size) (hlen : ∀ r, (encode r).length = size) (hdec : ∀ r, decode (encode r) = r) :
    ∀ (rs : List ρ) (p s : Bytes) {pos n : ℕ}, d = p ++ rs.flatMap encode ++ s → pos = p.length →
      n = rs.length → readTable d size decode zero n pos = (rs, pos + size * n) := by
  intro rs
  induction rs with
  | nil => intro p s pos n _ _ hn; subst hn; simp [readTable]
  | cons r rs ih =>
    intro p s pos n hd hp hn
    subst hn
    have hne := encode_ne_nil hsize (hlen r)
    have hread : fread d pos size = (some (encode r), pos + size) :=
      fread_at p (rs.flatMap encode ++ s) (by simp [hd]) hne hp (hlen r).symm
    have hrest : readTable d size decode zero rs.length (pos + size) = (rs, pos + size + size * rs.length) :=
      ih (p ++ encode r) s (by simp [hd]) (by simp [hp, hlen]) rfl
    simp only [List.length_cons, readTable, hread, hrest, hdec, Prod.mk.injEq, true_and]
    ring

/-! ## Files that are cut short -/

/-- A table of which only the first `n` records were read. -/
def cutTable (rs : List ρ) (zero : ρ) (n : ℕ) : List ρ := rs.take n ++ List.replicate (rs.length - n) zero

theorem cutTable_zero (rs : List ρ) (zero : ρ) : cutTable rs zero 0 = List.replicate rs.length zero := by
  simp [cutTable]

theorem cutTable_full {rs : List ρ} {n : ℕ} (h : rs.length ≤ n) (zero : ρ) : cutTable rs zero n = rs := by
  rw [cutTable, List.take_of_length_le h, Nat.sub_eq_zero_of_le h, List.replicate_zero, List.append_nil]

@[simp] theorem cutTable_length (rs : List ρ) (zero : ρ) (n : ℕ) : (cutTable rs zero n).length = rs.length := by
  rw [cutTable, List.length_append, List.length_take, List.length_replicate]
  omega

/-- What was read of a table is in it. -/
theorem mem_cutTable_of_lt {rs : List ρ} {r : ρ} {i n : ℕ} (hi : i < n) (h : rs[i]? = some r) (zero : ρ) :
    r ∈ cutTable rs zero n :=
  List.mem_append_left _ (List.mem_of_getElem? ((List.getElem?_take_of_lt hi).trans h))

theorem mem_cutTable {rs : List ρ} {zero r : ρ} {n : ℕ} (h : r ∈ cutTable rs zero n) :
    r ∈ rs.take n ∨ r = zero :=
  (List.mem_append.1 h).imp_right List.eq_of_mem_replicate

/-- A read of the part `m` of a file that is cut at `k`: it is there, or the stream is at the end. -/
theorem fread_take {d p m s : Bytes} {k pos n : ℕ} (hd : d = p ++ m ++ s) (hm : m ≠ []) (hp : pos = p.length)
    (hn : n = m.length) (hk : k ≤ d.length) :
    fread (d.take k) (min k pos) n = if pos + n ≤ k then (some m, pos + n) else (none, k) := by
  have hlen : (d.take k).length = k := by rw [List.length_take]; omega
  have hn0 : n ≠ 0 := by rw [hn]; simpa using hm
  unfold fread
  rw [if_neg hn0, hlen]
  by_cases h : pos + n ≤ k
  · have hmin : min k pos = pos := by omega
    have hslice : slice (d.take k) pos n = m := by
      have hcut : d.take k = p ++ m ++ s.take (k - (pos + n)) := by
        rw [hd, List.take_append, List.take_of_length_le (by rw [List.length_append]; omega), List.length_append,
          ← hp, ← hn]
      rw [hcut]
      exact slice_eq_mid hp hn
    rw [hmin, if_pos h, if_pos h, hslice]
  · rw [if_neg (by omega), if_neg h]
    congr 1
    omega

/-- **What is read of a table when the file is cut at `k`**: the records that are there in full. -/
theorem readTable_take {d : Bytes} {size k : ℕ} {encode : ρ → Bytes} {decode : Bytes → ρ} {zero : ρ}
    (hsize : 0 < size) (hlen : ∀ r, (encode r).length = size) (hdec : ∀ r, decode (encode r) = r) (hk : k ≤ d.length) :
    ∀ (rs : List ρ) (p s : Bytes) {pos n : ℕ}, d = p ++ rs.flatMap encode ++ s → pos = p.length → n = rs.length →
      readTable (d.take k) size decode zero n (min k pos) =
        (cutTable rs zero ((k - pos) / size), min k (pos + size * n)) := by
  intro rs
  induction rs with
  | nil => intro p s pos n _ _ hn; subst hn; simp [readTable, cutTable]
  | cons r rs ih =>
    intro p s pos n hd hp hn
    subst hn
    have hne := encode_ne_nil hsize (hlen r)
    have hread := fread_take (k := k) (s := rs.flatMap encode ++ s) (by simp [hd]) hne hp (hlen r).symm hk
    have hrest : readTable (d.take k) size decode zero rs.length (min k (pos + size)) =
        (cutTable rs zero ((k - (pos + size)) / size), min k (pos + size + size * rs.length)) :=
      ih (p ++ encode r) s (by simp [hd]) (by simp [hp, hlen]) rfl
    have hend : pos + size + size * rs.length = pos + size * (rs.length + 1) := by ring
    rw [List.length_cons, readTable, hread]
    by_cases h : pos + size ≤ k
    · have hq : (k - pos) / size = (k - (pos + size)) / size + 1 := by
        have hsub : k - pos = k - (pos + size) + size := by omega
        rw [hsub, Nat.add_div_right _ hsize]
      rw [min_eq_right h] at hrest
      simp only [if_pos h, hrest, hdec, hq, hend, cutTable, List.take_succ_cons, List.cons_append, List.length_cons,
        Nat.add_sub_add_right]
    · have hq : (k - pos) / size = 0 := Nat.div_eq_of_lt (by omega)
      have hq' : (k - (pos + size)) / size = 0 := Nat.div_eq_of_lt (by omega)
      rw [min_eq_left (by omega), hq'] at hrest
      simp only [if_neg h, hrest, hq, hend, cutTable_zero, List.length_cons, List.replicate_succ]

end Sfmf

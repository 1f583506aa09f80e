import Sfmf.Lib.Bytes

/-!
# Buffered output files

A `FILE` open for writing is the content of the file on disk, the kernel's
write position, and the bytes still in the stdio buffer. `fwrite` adds to the
buffer and lets some of it through to the disk: how much is up to the library,
so it is a parameter (`flush`) of every function here.

* `closeAfter`: the file's final content, if a byte string is written next and
  the file is closed.
* `closeAfter_fwrite`: it does not depend on what was let through when.
* `Sequential`: a file that has only ever been appended to, and
  `Sequential.closeAfter`: its content is what was written, in order.
-/

namespace Sfmf

/-- `pwrite`: the bytes `b` at position `pos` of a file with content `d`. -/
def overwrite (d : Bytes) (pos : ℕ) (b : Bytes) : Bytes :=
  if b = [] then d
  else d.take pos ++ List.replicate (pos - d.length) 0 ++ b ++ d.drop (pos + b.length)

@[simp] theorem overwrite_nil (d : Bytes) (pos : ℕ) : overwrite d pos [] = d := by simp [overwrite]

/-- Two writes one after another are one write. -/
theorem overwrite_overwrite (d : Bytes) (pos : ℕ) (a b : Bytes) :
    overwrite (overwrite d pos a) (pos + a.length) b = overwrite d pos (a ++ b) := by
  by_cases ha : a = []
  · simp [ha]
  by_cases hb : b = []
  · simp [hb]
  have hpre : (d.take pos ++ List.replicate (pos - d.length) 0 : Bytes).length = pos := by
    simp; omega
  unfold overwrite
  rw [if_neg ha, if_neg hb, if_neg (by simp [ha])]
  set pre : Bytes := d.take pos ++ List.replicate (pos - d.length) 0 with hp
  have h1 : (pre ++ a ++ d.drop (pos + a.length)).take (pos + a.length) = pre ++ a := by
    rw [List.take_left' (by simp [hpre])]
  have h2 : pos + a.length - (pre ++ a ++ d.drop (pos + a.length)).length = 0 := by
    simp only [List.length_append, hpre]; omega
  have h3 : (pre ++ a ++ d.drop (pos + a.length)).drop (pos + a.length + b.length) =
      d.drop (pos + (a ++ b).length) := by
    rw [← List.drop_drop, List.drop_left' (by simp [hpre]), List.drop_drop, List.length_append]
    congr 1; omega
  rw [h1, h2, h3]
  simp

/-- Appending is a write at the end. -/
theorem overwrite_end (d b : Bytes) : overwrite d d.length b = d ++ b := by
  by_cases hb : b = []
  · simp [hb]
  · simp [overwrite, hb]

theorem overwrite_length (d : Bytes) (pos : ℕ) (b : Bytes) (hpos : pos ≤ d.length) :
    (overwrite d pos b).length = max d.length (pos + b.length) := by
  by_cases hb : b = []
  · subst hb; simp; omega
  · simp only [overwrite, if_neg hb, List.length_append, List.length_take, List.length_replicate,
      List.length_drop]
    omega

/-- A file open for writing. -/
structure FILE where
  disk : Bytes
  pos : ℕ
  buf : Bytes
  deriving DecidableEq, Repr

namespace FILE

/-- `fopen(filename, "wb")`. -/
def fopen : FILE := ⟨[], 0, []⟩

/-- Let the first `k` bytes of the buffer through to the disk. -/
def drain (f : FILE) (k : ℕ) : FILE :=
  ⟨overwrite f.disk f.pos (f.buf.take k), f.pos + (f.buf.take k).length, f.buf.drop k⟩

/-- `fwrite(b, 1, len, fp)`. -/
def fwrite (flush : Bytes → ℕ) (f : FILE) (b : Bytes) : FILE :=
  { f with buf := f.buf ++ b }.drain (flush (f.buf ++ b))

/-- The content of the file after `fclose`. -/
def fclose (f : FILE) : Bytes := (f.drain f.buf.length).disk

/-- The content of the file if `r` is written next and it is closed. -/
def closeAfter (f : FILE) (r : Bytes) : Bytes := overwrite f.disk f.pos (f.buf ++ r)

theorem fclose_eq (f : FILE) : f.fclose = f.closeAfter [] := by
  simp [fclose, drain, closeAfter]

theorem closeAfter_drain (f : FILE) (k : ℕ) (r : Bytes) : (f.drain k).closeAfter r = f.closeAfter r := by
  unfold closeAfter drain
  rw [overwrite_overwrite, ← List.append_assoc, List.take_append_drop]

/-- **What the buffer lets through, and when, does not matter in the end.** -/
@[simp] theorem closeAfter_fwrite (flush : Bytes → ℕ) (f : FILE) (b r : Bytes) :
    (f.fwrite flush b).closeAfter r = f.closeAfter (b ++ r) := by
  unfold fwrite
  rw [closeAfter_drain]
  simp [closeAfter]

/-- **A file that has only been appended to**: `c` was written, and the kernel's
position is the end of the file. -/
structure Sequential (f : FILE) (c : Bytes) : Prop where
  content : f.disk ++ f.buf = c
  atEnd : f.pos = f.disk.length

theorem sequential_fopen : fopen.Sequential [] := ⟨rfl, rfl⟩

theorem Sequential.drain {f : FILE} {c : Bytes} (h : f.Sequential c) (k : ℕ) :
    (f.drain k).Sequential c := by
  constructor
  · simp only [FILE.drain, h.atEnd, overwrite_end, List.append_assoc, List.take_append_drop]
    exact h.content
  · simp only [FILE.drain, h.atEnd, overwrite_end, List.length_append]

theorem Sequential.fwrite {f : FILE} {c : Bytes} (h : f.Sequential c) (flush : Bytes → ℕ) (b : Bytes) :
    (f.fwrite flush b).Sequential (c ++ b) := by
  have h' : FILE.Sequential { f with buf := f.buf ++ b } (c ++ b) :=
    ⟨by simp only [← List.append_assoc, h.content], h.atEnd⟩
  exact h'.drain _

/-- Appended bytes end up one after another. -/
theorem Sequential.closeAfter {f : FILE} {c : Bytes} (h : f.Sequential c) (r : Bytes) :
    f.closeAfter r = c ++ r := by
  rw [FILE.closeAfter, h.atEnd, overwrite_end, ← List.append_assoc, h.content]

theorem Sequential.fclose {f : FILE} {c : Bytes} (h : f.Sequential c) : f.fclose = c := by
  rw [fclose_eq, h.closeAfter, List.append_nil]

/-- Replace the first bytes of the file on disk, past the buffer and the position:
what a clone of another file's range does. -/
def cloneRange (f : FILE) (s : Bytes) : FILE := { f with disk := s ++ f.disk.drop s.length }

/-- The length of a file that was cloned into. -/
theorem Sequential.cloneRange_length {f : FILE} {c : Bytes} (h : f.Sequential c) (s r : Bytes) :
    ((f.cloneRange s).closeAfter r).length = max s.length (c.length + r.length) := by
  have hc := congrArg List.length h.content
  simp only [List.length_append] at hc
  unfold FILE.closeAfter FILE.cloneRange
  rw [overwrite_length _ _ _ (by simp [h.atEnd]; omega)]
  simp [h.atEnd]
  omega

/-- **When a clone is an append**: when it clones nothing, or into a file that is
otherwise empty. -/
theorem Sequential.cloneRange_iff {f : FILE} {c : Bytes} (h : f.Sequential c) (s r : Bytes) :
    (f.cloneRange s).closeAfter r = c ++ s ++ r ↔ s = [] ∨ (c = [] ∧ r = []) := by
  constructor
  · intro he
    have hl := congrArg List.length he
    rw [h.cloneRange_length] at hl
    simp only [List.length_append] at hl
    by_cases hs : s = []
    · exact .inl hs
    · have := List.length_pos_iff.2 hs
      exact .inr ⟨List.eq_nil_of_length_eq_zero (by omega), List.eq_nil_of_length_eq_zero (by omega)⟩
  · rintro (rfl | ⟨rfl, rfl⟩)
    · simpa [cloneRange] using h.closeAfter r
    · have := h.content
      simp only [List.append_eq_nil_iff] at this
      simp [cloneRange, FILE.closeAfter, this.1, this.2]

end FILE

end Sfmf

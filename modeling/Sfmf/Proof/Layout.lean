import Sfmf.Spec.Unpack
import Sfmf.Proof.Convert

/-!
# The layout that both writers share

`write_pack` and `write_manifest` put out blob entries with a running offset, and
then the payloads in the same order.

* `blobEntries_get`: the `i`-th blob entry, with its offset.
* `Recorded.slice`, `Recorded.fread`: where the `i`-th payload stands, and that it is read back.
* `mapM_outs`: the payload operations of a list of files put out the files'
  payloads.
-/

namespace Sfmf

/-! ## 32-bit arithmetic -/

theorem ofNat_toNat_of_lt {n : ℕ} (h : n < 2 ^ 32) : (UInt32.ofNat n).toNat = n :=
  UInt32.toNat_ofNat_of_lt' (by simpa [UInt32.size] using h)

/-- The smaller of the two sizes of a file, as a 32-bit number: `fileentry_get_min_size`. -/
def minSize (e : FileEntry) : ℕ := (fileentryGetMinSize e).toUInt32.toNat

theorem ofNat_minSize (e : FileEntry) : UInt32.ofNat (minSize e) = (fileentryGetMinSize e).toUInt32 :=
  UInt32.ofNat_toNat

/-! ## Blob entries -/

@[simp] theorem blobEntries_length (n : UInt32) (es : List FileEntry) : (blobEntries n es).length = es.length := by
  induction es generalizing n with
  | nil => rfl
  | cons e es ih => simp [blobEntries, ih]

/-- A blob entry has the hash of its file. -/
theorem blobEntries_hash (n : UInt32) (es : List FileEntry) : (blobEntries n es).map (·.hash) = es.map (·.hash) := by
  induction es generalizing n with
  | nil => rfl
  | cons e es ih => simp [blobEntries, ih, blobEntry]

/-- **The running offset** of the blob entries adds up the sizes before. -/
theorem blobEntries_get (n : ℕ) (es : List FileEntry) (i : ℕ) :
    (blobEntries (UInt32.ofNat n) es)[i]? =
      es[i]?.map fun e => blobEntry (UInt32.ofNat (n + offset (es.map minSize) i)) e := by
  induction es generalizing n i with
  | nil => simp [blobEntries]
  | cons e es ih =>
    cases i with
    | zero => simp [blobEntries]
    | succ i =>
      have hn : UInt32.ofNat n + (fileentryGetMinSize e).toUInt32 = UInt32.ofNat (n + minSize e) := by
        rw [UInt32.ofNat_add, ofNat_minSize]
      simp only [blobEntries, List.getElem?_cons_succ, List.map_cons, offset_cons_succ, hn, ih, Nat.add_assoc]

/-- Payloads of the sizes that were recorded. -/
abbrev Recorded (es : List FileEntry) (ps : List Bytes) : Prop :=
  List.Forall₂ (fun e p => p.length = minSize e) es ps

theorem Recorded.map_length {es : List FileEntry} {ps : List Bytes} (h : Recorded es ps) :
    ps.map List.length = es.map minSize := by
  induction h with
  | nil => rfl
  | cons h _ ih => simp [h, ih]

theorem Recorded.flatten_length {es : List FileEntry} {ps : List Bytes} (h : Recorded es ps) :
    ps.flatten.length = (es.map minSize).sum := by
  rw [List.length_flatten, h.map_length]

/-- **Where a payload stands**: behind what precedes the payloads, at the sum of the sizes before. -/
theorem Recorded.slice {head : Bytes} {es : List FileEntry} {ps : List Bytes} (h : Recorded es ps) {i : ℕ}
    {p : Bytes} (hp : ps[i]? = some p) :
    slice (head ++ ps.flatten) (head.length + offset (es.map minSize) i) p.length = p := by
  rw [← h.map_length, slice_flatten_behind hp]

/-- The payload of an entry. -/
theorem Recorded.payload {es : List FileEntry} {ps : List Bytes} (h : Recorded es ps) {i : ℕ} {e : FileEntry}
    (he : es[i]? = some e) : ∃ p, ps[i]? = some p ∧ p.length = minSize e := by
  obtain ⟨hi, rfl⟩ := List.getElem?_eq_some_iff.1 he
  have hi' : i < ps.length := h.length_eq ▸ hi
  exact ⟨ps[i], List.getElem?_eq_getElem hi', List.Forall₂.get h hi hi'⟩

/-- **A payload is read back** from the offset in its blob entry. -/
theorem Recorded.fread {head : Bytes} {es : List FileEntry} {ps : List Bytes} (h : Recorded es ps)
    (hlen : head.length + (es.map minSize).sum < 2 ^ 32) {i : ℕ} {e : FileEntry} (he : es[i]? = some e)
    (hpos : 0 < minSize e) :
    let b := blobEntry (UInt32.ofNat (head.length + offset (es.map minSize) i)) e
    (Sfmf.fread (head ++ ps.flatten) b.offset.toNat b.size.toNat).1 = ps[i]? := by
  obtain ⟨p, hp, hpl⟩ := h.payload he
  have hend : offset (es.map minSize) i + minSize e ≤ (es.map minSize).sum :=
    offset_add_le (by simp [he])
  have hsize : (blobEntry (UInt32.ofNat (head.length + offset (es.map minSize) i)) e).size.toNat = p.length := hpl.symm
  have hoff : (blobEntry (UInt32.ofNat (head.length + offset (es.map minSize) i)) e).offset.toNat =
      head.length + offset (es.map minSize) i := ofNat_toNat_of_lt (by omega)
  simp only [hsize, hoff]
  rw [fread_slice (by omega) (by rw [List.length_append, h.flatten_length]; omega), h.slice hp, hp]

/-! ## Payloads -/

variable (E : Env)

/-- What an operation that is still to be set up puts out. -/
def outOf (op : Exec StreamOp) : Exec Bytes := op >>= StreamOp.out E

/-- The operations of a list of files, and what they put out. -/
theorem mapM_outs {f : FileEntry → Exec StreamOp} {es : List FileEntry} {ops : List StreamOp} {outs : List Bytes}
    (hops : es.mapM f = .ok ops) (houts : ops.mapM (StreamOp.out E) = .ok outs) :
    List.Forall₂ (fun e b => outOf E (f e) = .ok b) es outs := by
  rw [mapM_ok] at hops houts
  induction hops generalizing outs with
  | nil => cases houts; exact .nil
  | cons hop _ ih =>
    cases houts with
    | cons hout houts => exact .cons (by simpa [outOf, hop] using hout) (ih houts)

/-- Operations that only write given bytes. -/
theorem mapM_fwrite {α : Type} (f : α → Bytes) (l : List α) :
    (l.map fun a => StreamOp.fwrite (f a)).mapM (StreamOp.out E) = .ok (l.map f) := by
  rw [mapM_ok, List.forall₂_map_left_iff, List.forall₂_map_right_iff]
  exact List.forall₂_same.2 fun b _ => rfl

theorem mapM_append_ok {α β : Type} {f : α → Exec β} {l l' : List α} {r : List β} :
    (l ++ l').mapM f = .ok r ↔ ∃ a b, l.mapM f = .ok a ∧ l'.mapM f = .ok b ∧ r = a ++ b := by
  simp only [List.mapM_append, bind_ok, pure_eq_ok, Except.ok.injEq]
  constructor
  · rintro ⟨a, ha, b, hb, rfl⟩; exact ⟨a, b, ha, hb, rfl⟩
  · rintro ⟨a, b, ha, hb, rfl⟩; exact ⟨a, ha, b, hb, rfl⟩

theorem fwriteOne_ok {b : Bytes} {op : StreamOp} : fwriteOne b = .ok op ↔ b ≠ [] ∧ op = .fwrite b := by
  simp only [fwriteOne, bind_ok, cAssert_ok, exists_const, pure_eq_ok, Except.ok.injEq]
  rw [eq_comm (a := op)]

theorem Disk.openFile_ok {D : Disk} {p : CString} {text : String} {d : Bytes} :
    D.openFile p text = .ok d ↔ D.fopen p = some d := by
  unfold Disk.openFile
  cases D.fopen p <;> simp

/-- The payload of a regular file. -/
theorem payloadOp_ok {D : Disk} {e : FileEntry} {op : StreamOp} : payloadOp D e = .ok op ↔
    ∃ d, D.fopen e.filename = some d ∧ op = .convertFile d (if zcompress e then .zcompress else .none) := by
  simp only [payloadOp, bind_ok, Disk.openFile_ok, pure_eq_ok, Except.ok.injEq]
  exact exists_congr fun d => and_congr_right fun _ => eq_comm

end Sfmf

import Sfmf.Spec.Convert

/-!
# What a conversion does to a byte string

The loops of `convert.c` are written for any source and any sink. Here they are
compared on two pairs at once: sources that give the same blocks, and sinks that
take all they are given.

* `runConversion_sim`: on such pairs a conversion stops alike or does alike.
* `converted`: the bytes a conversion puts out, and `converted_none`.
* `writeFileWith_eq`: as long as nothing is cloned, a file is written by its
  operations one after another.
* `convertFileHash_eq`, `convertFileZsizeHash_eq`: the hashes of a file.
-/

namespace Sfmf

variable {σ σ' ω ω' : Type}

/-! ## Two conversions side by side -/

/-- Readers that give the same blocks. -/
structure ReadSim (Q : Reader σ → Reader σ' → Prop) : Prop where
  left : ∀ {r r'}, Q r r' → r.transfer.left r.userData = r'.transfer.left r'.userData
  block : ∀ {r r'}, Q r r' → ∀ n, (convertIoRead r n).1 = (convertIoRead r' n).1
  next : ∀ {r r'}, Q r r' → ∀ n, Q (convertIoRead r n).2 (convertIoRead r' n).2

/-- Writers that take all they are given. -/
structure WriteSim (T : Writer ω → Writer ω' → Prop) : Prop where
  left : ∀ {w w'}, T w w' → ∀ b, (convertIoWrite w b).1 = b.length
  right : ∀ {w w'}, T w w' → ∀ b, (convertIoWrite w' b).1 = b.length
  next : ∀ {w w'}, T w w' → ∀ b, T (convertIoWrite w b).2 (convertIoWrite w' b).2

section Sim

variable {Q : Reader σ → Reader σ' → Prop} {T : Writer ω → Writer ω' → Prop}
variable (hQ : ReadSim Q) (hT : WriteSim T) (E : Env)

include hT in
theorem WriteSim.write {β β' : Type} {R : β → β' → Prop} {w : Writer ω} {w' : Writer ω'} (hw : T w w')
    {b : Bytes} {f : Unit → Exec β} {f' : Unit → Exec β'}
    (hf : T (convertIoWrite w b).2 (convertIoWrite w' b).2 → Exec.Rel R (f ()) (f' ())) :
    Exec.Rel R (cAssert ((convertIoWrite w b).1 = b.length) "res == len" >>= f)
      (cAssert ((convertIoWrite w' b).1 = b.length) "res == len" >>= f') :=
  Exec.Rel.assert (by simp [hT.left hw, hT.right hw]) fun _ => hf (hT.next hw b)

include hQ hT in
theorem uncompressedLoop_sim : ∀ n {r r' w w'}, Q r r' → T w w' →
    Exec.Rel (fun p p' => Q p.1 p'.1 ∧ T p.2 p'.2) (uncompressedLoop n r w) (uncompressedLoop n r' w') := by
  intro n
  induction n with
  | zero => intro r r' w w' _ _; rfl
  | succ n ih =>
    intro r r' w w' hr hw
    have hn := hQ.next hr defaultBufferSize
    simp only [uncompressedLoop, hQ.block hr]
    split
    · exact ⟨hn, hw⟩
    · exact hT.write hw fun hw => ih hn hw

include hT in
theorem deflateInput_sim : ∀ n {s input w w'}, T w w' →
    Exec.Rel (fun p p' => p.1 = p'.1 ∧ T p.2 p'.2) (deflateInput E n s input w) (deflateInput E n s input w') := by
  intro n
  induction n with
  | zero => intro s input w w' _; rfl
  | succ n ih =>
    intro s input w w' hw
    simp only [deflateInput]
    refine Exec.Rel.assert Iff.rfl fun _ => hT.write hw fun hw => ?_
    split
    · exact ⟨rfl, hw⟩
    · exact ih hw

include hT in
theorem deflateFinish_sim : ∀ n {s w w'}, T w w' →
    Exec.Rel T (deflateFinish E n s w) (deflateFinish E n s w') := by
  intro n
  induction n with
  | zero => intro s w w' _; rfl
  | succ n ih =>
    intro s w w' hw
    simp only [deflateFinish]
    refine Exec.Rel.assert Iff.rfl fun _ => hT.write hw fun hw => ?_
    split
    · exact hw
    · exact ih hw

include hQ hT in
theorem zcompressedLoop_sim : ∀ n {s r r' w w'}, Q r r' → T w w' →
    Exec.Rel (fun p p' => Q p.1 p'.1 ∧ T p.2 p'.2)
      (zcompressedLoop E n s r w) (zcompressedLoop E n s r' w') := by
  intro n
  induction n with
  | zero => intro s r r' w w' _ _; rfl
  | succ n ih =>
    intro s r r' w w' hr hw
    have hn := hQ.next hr defaultBufferSize
    simp only [zcompressedLoop, hQ.block hr]
    split
    · exact (deflateFinish_sim hT E _ hw).bind fun _ _ hw => ⟨hn, hw⟩
    · refine (deflateInput_sim hT E _ hw).bind ?_
      rintro ⟨s, w⟩ ⟨s', w'⟩ ⟨rfl, hw⟩
      exact ih hn hw

include hT in
theorem inflateInput_sim : ∀ n {s input w w'}, T w w' →
    Exec.Rel (fun p p' => p.1 = p'.1 ∧ T p.2 p'.2) (inflateInput E n s input w) (inflateInput E n s input w') := by
  intro n
  induction n with
  | zero => intro s input w w' _; rfl
  | succ n ih =>
    intro s input w w' hw
    simp only [inflateInput]
    refine Exec.Rel.assert Iff.rfl fun _ => hT.write hw fun hw => ?_
    split
    · exact ⟨rfl, hw⟩
    · exact ih hw

include hT in
theorem inflateFinish_sim : ∀ n {s w w'}, T w w' →
    Exec.Rel T (inflateFinish E n s w) (inflateFinish E n s w') := by
  intro n
  induction n with
  | zero => intro s w w' _; rfl
  | succ n ih =>
    intro s w w' hw
    simp only [inflateFinish]
    refine Exec.Rel.assert Iff.rfl fun _ => hT.write hw fun hw => ?_
    split
    · exact hw
    · exact ih hw

include hQ hT in
theorem zdecompressLoop_sim : ∀ n {s r r' w w'}, Q r r' → T w w' →
    Exec.Rel (fun p p' => Q p.1 p'.1 ∧ T p.2 p'.2)
      (zdecompressLoop E n s r w) (zdecompressLoop E n s r' w') := by
  intro n
  induction n with
  | zero => intro s r r' w w' _ _; rfl
  | succ n ih =>
    intro s r r' w w' hr hw
    have hn := hQ.next hr defaultBufferSize
    simp only [zdecompressLoop, hQ.block hr]
    split
    · exact (inflateFinish_sim hT E _ hw).bind fun _ _ hw => ⟨hn, hw⟩
    · refine (inflateInput_sim hT E _ hw).bind ?_
      rintro ⟨s, w⟩ ⟨s', w'⟩ ⟨rfl, hw⟩
      exact ih hn hw

include hQ hT in
/-- **Which source and sink are used does not matter** for what a conversion does,
as long as the blocks are the same and are all taken. -/
theorem runConversion_sim {r : Reader σ} {r' : Reader σ'} {w : Writer ω} {w' : Writer ω'}
    (hr : Q r r') (hw : T w w') (flags : ConvertFlags) :
    Exec.Rel (fun p p' => Q p.1 p'.1 ∧ T p.2 p'.2)
      (runConversion E r w flags) (runConversion E r' w' flags) := by
  cases flags with
  | none =>
    simp only [runConversion, doConvertUncompressed, hQ.left hr]
    exact uncompressedLoop_sim hQ hT _ hr hw
  | zcompress =>
    simp only [runConversion, doConvertZcompressed, hQ.left hr]
    exact zcompressedLoop_sim hQ hT E _ hr hw
  | zuncompress =>
    simp only [runConversion, doConvertZdecompress, hQ.left hr]
    exact zdecompressLoop_sim hQ hT E _ hr hw

end Sim

/-! ## The bytes that come out -/

variable (E : Env)

/-- **What a conversion makes of a byte string**: the sink that collects is the one of SHA-1. -/
def converted (flags : ConvertFlags) (d : Bytes) : Exec Bytes := do
  let (_, w) ← runConversion E ⟨fileConvertContextRead, d, 0⟩ ⟨sha1ConvertContextWrite, [], 0⟩ flags
  return w.userData

theorem convertIoRead_file (d : Bytes) (t n : ℕ) : convertIoRead ⟨fileConvertContextRead, d, t⟩ n =
    (d.take n, ⟨fileConvertContextRead, d.drop n, t + (d.take n).length⟩) := rfl

theorem uncompressedLoop_file : ∀ n d t acc u, d.length < n → ∃ r w,
    uncompressedLoop n ⟨fileConvertContextRead, d, t⟩ ⟨sha1ConvertContextWrite, acc, u⟩ = .ok (r, w) ∧
      w.userData = acc ++ d := by
  intro n
  induction n with
  | zero => intro d t acc u h; omega
  | succ n ih =>
    intro d t acc u h
    by_cases hd : d = []
    · subst hd
      exact ⟨_, _, rfl, by simp⟩
    have hpos := List.length_pos_iff.2 hd
    have htake : d.take defaultBufferSize ≠ [] := by
      simp [List.take_eq_nil_iff, hd, defaultBufferSize]
    obtain ⟨r, w, hrun, hw⟩ := ih (d.drop defaultBufferSize) (t + (d.take defaultBufferSize).length)
      (acc ++ d.take defaultBufferSize) (u + (d.take defaultBufferSize).length)
      (by simp only [List.length_drop, defaultBufferSize]; omega)
    refine ⟨r, w, ?_, by rw [hw, List.append_assoc, List.take_append_drop]⟩
    simpa [uncompressedLoop, convertIoRead_file, convertIoWrite, sha1ConvertContextWrite, htake] using hrun

/-- **A plain copy puts out what it reads.** -/
@[simp] theorem converted_none (d : Bytes) : converted E .none d = .ok d := by
  obtain ⟨r, w, hrun, hw⟩ := uncompressedLoop_file (d.length + 1) d 0 [] 0 (by omega)
  have hrun' : runConversion E ⟨fileConvertContextRead, d, 0⟩ ⟨sha1ConvertContextWrite, [], 0⟩ .none =
      .ok (r, w) := hrun
  simp [converted, hrun', hw]

/-- A block is empty only at the end of the file. -/
theorem take_block_eq_nil {d : Bytes} : d.take defaultBufferSize = [] ↔ d = [] := by
  simp [List.take_eq_nil_iff, defaultBufferSize]

/-- The last block read is the empty one, so nothing is left of the file. -/
theorem take_block_nil {d : Bytes} (h : d.take defaultBufferSize = []) : d.drop defaultBufferSize = [] := by
  rw [take_block_eq_nil.1 h, List.drop_nil]

theorem uncompressedLoop_rest : ∀ {n : ℕ} {d : Bytes} {t : ℕ} {w : Writer ω} {r w'},
    uncompressedLoop n ⟨fileConvertContextRead, d, t⟩ w = .ok (r, w') → r.userData = [] := by
  intro n
  induction n with
  | zero => intro d t w r w' h; simp [uncompressedLoop] at h
  | succ n ih =>
    intro d t w r w' h
    by_cases hb : d.take defaultBufferSize = []
    · simp only [uncompressedLoop, convertIoRead_file, hb, if_true, pure_eq_ok, Except.ok.injEq,
        Prod.mk.injEq] at h
      rw [← h.1]
      exact take_block_nil hb
    · simp only [uncompressedLoop, convertIoRead_file, hb, if_false, bind_ok] at h
      obtain ⟨_, _, h⟩ := h
      exact ih h

theorem zcompressedLoop_rest : ∀ {n : ℕ} {s : E.zlib.Deflate} {d : Bytes} {t : ℕ} {w : Writer ω} {r w'},
    zcompressedLoop E n s ⟨fileConvertContextRead, d, t⟩ w = .ok (r, w') → r.userData = [] := by
  intro n
  induction n with
  | zero => intro s d t w r w' h; simp [zcompressedLoop] at h
  | succ n ih =>
    intro s d t w r w' h
    by_cases hb : d.take defaultBufferSize = []
    · simp only [zcompressedLoop, convertIoRead_file, hb, if_true, bind_ok, pure_eq_ok, Except.ok.injEq,
        Prod.mk.injEq] at h
      obtain ⟨_, _, h, _⟩ := h
      rw [← h]
      exact take_block_nil hb
    · simp only [zcompressedLoop, convertIoRead_file, hb, if_false, bind_ok] at h
      obtain ⟨_, _, h⟩ := h
      exact ih h

theorem zdecompressLoop_rest : ∀ {n : ℕ} {s : E.zlib.Inflate} {d : Bytes} {t : ℕ} {w : Writer ω} {r w'},
    zdecompressLoop E n s ⟨fileConvertContextRead, d, t⟩ w = .ok (r, w') → r.userData = [] := by
  intro n
  induction n with
  | zero => intro s d t w r w' h; simp [zdecompressLoop] at h
  | succ n ih =>
    intro s d t w r w' h
    by_cases hb : d.take defaultBufferSize = []
    · simp only [zdecompressLoop, convertIoRead_file, hb, if_true, bind_ok, pure_eq_ok, Except.ok.injEq,
        Prod.mk.injEq] at h
      obtain ⟨_, _, h, _⟩ := h
      rw [← h]
      exact take_block_nil hb
    · simp only [zdecompressLoop, convertIoRead_file, hb, if_false, bind_ok] at h
      obtain ⟨_, _, h⟩ := h
      exact ih h

/-- **A conversion reads its file to the end.** -/
theorem runConversion_rest {w : Writer ω} {d : Bytes} {flags : ConvertFlags} {r : Reader Bytes}
    {w' : Writer ω} (h : runConversion E ⟨fileConvertContextRead, d, 0⟩ w flags = .ok (r, w')) :
    r.userData = [] := by
  cases flags with
  | none => exact uncompressedLoop_rest h
  | zcompress => exact zcompressedLoop_rest E h
  | zuncompress => exact zdecompressLoop_rest E h

/-! ## Sources and sinks of the callers -/

/-- A buffer that is read from `pos` on, and a file with the same rest. -/
structure BufferReads (r : Reader BufferConvertContextSource) (r' : Reader Bytes) : Prop where
  left : r.transfer = bufferConvertContextRead
  right : r'.transfer = fileConvertContextRead
  rest : r.userData.buf.drop r.userData.pos = r'.userData

theorem bufferReads_sim : ReadSim BufferReads where
  left := by
    rintro ⟨_, ⟨buf, pos⟩, t⟩ ⟨_, d, t'⟩ ⟨rfl, rfl, h⟩
    simp only at h
    simp [bufferConvertContextRead, fileConvertContextRead, ← h]
  block := by
    rintro ⟨_, ⟨buf, pos⟩, t⟩ ⟨_, d, t'⟩ ⟨rfl, rfl, h⟩ n
    simp only at h
    simp only [convertIoRead, bufferConvertContextRead, fileConvertContextRead, slice, ← h]
    split
    · rw [List.take_of_length_le (by simp), List.take_of_length_le (by simp; omega)]
    · rfl
  next := by
    rintro ⟨_, ⟨buf, pos⟩, t⟩ ⟨_, d, t'⟩ ⟨rfl, rfl, h⟩ n
    refine ⟨rfl, rfl, ?_⟩
    simp only at h
    simp only [convertIoRead, bufferConvertContextRead, fileConvertContextRead, ← h, List.drop_drop]
    split
    · rw [List.drop_eq_nil_of_le (by omega), List.drop_eq_nil_of_le (by omega)]
    · rfl

/-- A file whose blocks also go to SHA-1, and the file alone. -/
structure DuplicateReads (d : Bytes) (r : Reader (Bytes × Bytes)) (r' : Reader Bytes) : Prop where
  left : r.transfer = duplicateConvertIoRead fileConvertContextRead sha1ConvertContextWrite
  right : r'.transfer = fileConvertContextRead
  rest : r.userData.1 = r'.userData
  whole : r.userData.2 ++ r.userData.1 = d

theorem duplicateReads_sim (d : Bytes) : ReadSim (DuplicateReads d) where
  left := by
    rintro ⟨_, ⟨x, acc⟩, t⟩ ⟨_, y, t'⟩ ⟨rfl, rfl, rfl, -⟩
    rfl
  block := by
    rintro ⟨_, ⟨x, acc⟩, t⟩ ⟨_, y, t'⟩ ⟨rfl, rfl, rfl, -⟩ n
    rfl
  next := by
    rintro ⟨_, ⟨x, acc⟩, t⟩ ⟨_, y, t'⟩ ⟨rfl, rfl, rfl, h⟩ n
    refine ⟨rfl, rfl, rfl, ?_⟩
    simpa [convertIoRead, duplicateConvertIoRead, fileConvertContextRead, sha1ConvertContextWrite] using h

/-- The file `f'` is the file `f` with `b` written to it. -/
structure FILE.Appended (f f' : FILE) (b : Bytes) : Prop where
  close : ∀ r, f'.closeAfter r = f.closeAfter (b ++ r)
  sequential : ∀ c, f.Sequential c → f'.Sequential (c ++ b)

theorem FILE.appended_refl (f : FILE) : f.Appended f [] := ⟨fun _ => rfl, fun c h => by simpa using h⟩

theorem FILE.Appended.trans {f f' f'' : FILE} {b b' : Bytes} (h : f.Appended f' b)
    (h' : f'.Appended f'' b') : f.Appended f'' (b ++ b') :=
  ⟨fun r => by rw [h'.close, h.close, List.append_assoc],
    fun c hc => by rw [← List.append_assoc]; exact h'.sequential _ (h.sequential c hc)⟩

theorem FILE.appended_fwrite (flush : Bytes → ℕ) (f : FILE) (b : Bytes) : f.Appended (f.fwrite flush b) b :=
  ⟨fun r => closeAfter_fwrite flush f b r, fun _ h => h.fwrite flush b⟩

/-- A file that has got what the sink of SHA-1 has collected. -/
structure FileWrites (f : FILE) (w : Writer FILE) (w' : Writer Bytes) : Prop where
  left : w.transfer = fileConvertContextWrite E
  right : w'.transfer = sha1ConvertContextWrite
  appended : f.Appended w.userData w'.userData

theorem fileWrites_sim (f : FILE) : WriteSim (FileWrites E f) where
  left := by rintro ⟨_, u, t⟩ ⟨_, u', t'⟩ ⟨rfl, rfl, -⟩ b; rfl
  right := by rintro ⟨_, u, t⟩ ⟨_, u', t'⟩ ⟨rfl, rfl, -⟩ b; rfl
  next := by
    rintro ⟨_, u, t⟩ ⟨_, u', t'⟩ ⟨rfl, rfl, h⟩ b
    exact ⟨rfl, rfl, h.trans (FILE.appended_fwrite E.flush u b)⟩

/-- A sink that counts what the sink of SHA-1 has collected. -/
structure Counts (T : Sink ω) (w : Writer ω) (w' : Writer Bytes) : Prop where
  left : w.transfer = T
  right : w'.transfer = sha1ConvertContextWrite
  total : w.total = w'.userData.length

theorem counts_sim {T : Sink ω} (hT : ∀ u b, (T.write u b).1 = b.length) : WriteSim (Counts T) where
  left := by rintro ⟨_, u, t⟩ ⟨_, u', t'⟩ ⟨rfl, rfl, -⟩ b; exact hT u b
  right := by rintro ⟨_, u, t⟩ ⟨_, u', t'⟩ ⟨rfl, rfl, -⟩ b; rfl
  next := by
    rintro ⟨_, u, t⟩ ⟨_, u', t'⟩ ⟨rfl, rfl, h⟩ b
    have hb := hT u b
    simp only at h hb
    exact ⟨rfl, rfl, by simp [convertIoWrite, sha1ConvertContextWrite, hb, h]⟩

/-! ## Files that are written -/

/-- A conversion to a file appends what comes out. -/
theorem runConversion_file (r : Reader σ) (f : FILE) (d : Bytes) (flags : ConvertFlags)
    {Q : Reader σ → Reader Bytes → Prop} (hQ : ReadSim Q) (hr : Q r ⟨fileConvertContextRead, d, 0⟩) :
    Exec.Rel (fun f' b => f.Appended f' b)
      (do let (_, w) ← runConversion E r ⟨fileConvertContextWrite E, f, 0⟩ flags
          return w.userData) (converted E flags d) :=
  (runConversion_sim hQ (fileWrites_sim E f) E hr ⟨rfl, rfl, f.appended_refl⟩ flags).bind
    fun _ _ h => h.2.appended

theorem sameReader_sim : ReadSim (fun r r' : Reader σ => r = r') where
  left := by rintro r r' rfl; rfl
  block := by rintro r r' rfl n; rfl
  next := by rintro r r' rfl n; rfl

theorem convertFileFp_rel (src : Bytes) (f : FILE) (flags : ConvertFlags) :
    Exec.Rel (fun f' b => f.Appended f' b) (convertFileFp E false src f flags) (converted E flags src) := by
  simp only [convertFileFp, Bool.false_eq_true, and_false, if_false]
  exact runConversion_file E _ f src flags sameReader_sim rfl

theorem convertBufferFp_rel (buf : Bytes) (f : FILE) (flags : ConvertFlags) :
    Exec.Rel (fun f' b => f.Appended f' b) (convertBufferFp E buf f flags) (converted E flags buf) :=
  runConversion_file E _ f buf flags bufferReads_sim ⟨rfl, rfl, by simp⟩

/-- The bytes an operation writes. -/
def StreamOp.out : StreamOp → Exec Bytes
  | .fwrite b => return b
  | .convertFile src flags => converted E flags src
  | .convertBuffer buf flags => converted E flags buf

/-- Whether the outcome of the clone is to matter: a copy that clones some bytes. -/
def StreamOp.Clones (clone : Bool) (op : StreamOp) : Prop :=
  clone = true ∧ ∃ src, op = .convertFile src .none ∧ src ≠ []

theorem FILE.cloneRange_nil (f : FILE) : f.cloneRange [] = f := rfl

theorem StreamOp.run_rel {clone : Bool} (f : FILE) (op : StreamOp) (hc : ¬ op.Clones clone) :
    Exec.Rel (fun f' b => f.Appended f' b) (op.run E clone f) (op.out E) := by
  cases op with
  | fwrite b => exact f.appended_fwrite E.flush b
  | convertFile src flags =>
    by_cases hclone : flags = .none ∧ clone = true
    · obtain ⟨rfl, rfl⟩ := hclone
      have hsrc : src = [] := by
        by_contra hs
        exact hc ⟨rfl, src, rfl, hs⟩
      subst hsrc
      simpa [StreamOp.run, convertFileFp, StreamOp.out, FILE.cloneRange_nil, Exec.Rel] using f.appended_refl
    · have hrun : convertFileFp E clone src f flags = convertFileFp E false src f flags := by
        simp [convertFileFp, hclone]
      simp only [StreamOp.run, StreamOp.out, hrun]
      exact convertFileFp_rel E src f flags
  | convertBuffer buf flags => exact convertBufferFp_rel E buf f flags

theorem runOps_rel {clone : ℕ → Bool} : ∀ (ops : List StreamOp) (k : ℕ) (f : FILE),
    (∀ (i : ℕ) (op : StreamOp), ops[i]? = some op → ¬ op.Clones (clone (k + i))) →
    Exec.Rel (fun f' bs => f.Appended f' bs.flatten) (runOps E clone k f ops) (ops.mapM (·.out E)) := by
  intro ops
  induction ops with
  | nil => intro k f _; exact f.appended_refl
  | cons op ops ih =>
    intro k f hc
    simp only [runOps, List.mapM_cons]
    refine (StreamOp.run_rel E f op (hc 0 op rfl)).bind fun f' b hf => ?_
    have hrest := ih (k + 1) f' fun i op' hi => by
      have := hc (i + 1) op' (by simpa using hi)
      rwa [show k + (i + 1) = k + 1 + i by omega] at this
    generalize runOps E clone (k + 1) f' ops = x at hrest
    generalize List.mapM (·.out E) ops = y at hrest
    cases x <;> cases y
    case ok.ok f'' bs => exact hf.trans hrest
    all_goals simp_all [Exec.Rel]

/-- The content of a file that was opened anew. -/
theorem FILE.Appended.fclose {f : FILE} {b : Bytes} (h : FILE.fopen.Appended f b) : f.fclose = b := by
  simpa using (h.sequential [] sequential_fopen).fclose

/-- **A file whose clones clone nothing is what its operations put out**, one after another. -/
theorem writeFileWith_eq {clone : ℕ → Bool} {ops : List StreamOp}
    (hc : ∀ (i : ℕ) (op : StreamOp), ops[i]? = some op → ¬ op.Clones (clone i)) :
    writeFileWith E clone ops = List.flatten <$> ops.mapM (·.out E) := by
  have h := @runOps_rel E clone ops 0 .fopen fun i op hi => by simpa using hc i op hi
  unfold writeFileWith
  generalize runOps E clone 0 .fopen ops = x at h
  generalize List.mapM (·.out E) ops = y at h
  cases x <;> cases y
  case ok.ok f bs => exact congrArg Except.ok h.fclose
  all_goals simp_all [Exec.Rel]

theorem writeFile_eq (hE : E.NoReflink) (ops : List StreamOp) :
    writeFile E ops = List.flatten <$> ops.mapM (·.out E) :=
  writeFileWith_eq E fun i op _ h => by
    have := h.1
    rw [hE i] at this
    cases this

theorem writeFile_ok (hE : E.NoReflink) {ops : List StreamOp} {b : Bytes} : writeFile E ops = .ok b ↔
    ∃ outs, ops.mapM (·.out E) = .ok outs ∧ b = outs.flatten := by
  simp only [writeFile_eq E hE, map_ok]
  exact exists_congr fun outs => and_congr_right fun _ => eq_comm

/-- **A single conversion into a new file puts out what it should, clone or not.** -/
theorem convertFile_eq (src : Bytes) (flags : ConvertFlags) :
    convertFile E src flags = converted E flags src := by
  by_cases hc : flags = .none ∧ E.clone 0 = true
  · obtain ⟨rfl, hc⟩ := hc
    have hclose : (FILE.fopen.cloneRange src).fclose = src := by
      rw [FILE.fclose_eq]
      simpa using (FILE.sequential_fopen.cloneRange_iff src []).2 (.inr ⟨rfl, rfl⟩)
    simp [convertFile, writeFile, writeFileWith, runOps, StreamOp.run, convertFileFp, hc, hclose]
  · have h := convertFileFp_rel E src .fopen flags
    have hrun : convertFileFp E (E.clone 0) src .fopen flags = convertFileFp E false src .fopen flags := by
      simp [convertFileFp, hc]
    simp only [convertFile, writeFile, writeFileWith, runOps, StreamOp.run, hrun]
    generalize convertFileFp E false src .fopen flags = x at h
    generalize converted E flags src = y at h
    cases x <;> cases y
    case ok.ok f b => exact congrArg Except.ok h.fclose
    all_goals simp_all [Exec.Rel]

/-! ## Hashes -/

/-- **The hash of a file** is the length and the SHA-1 of what its conversion puts out. -/
theorem convertFileHash_eq (d : Bytes) (flags : ConvertFlags) : convertFileHash E d flags =
    (fun b => ⟨UInt32.ofNat b.length, hashtypeSha1, E.sha1 b⟩) <$> converted E flags d := by
  have hw : Counts sha1ConvertContextWrite ⟨sha1ConvertContextWrite, [], 0⟩
      ⟨sha1ConvertContextWrite, [], 0⟩ := ⟨rfl, rfl, rfl⟩
  have hr : (⟨fileConvertContextRead, d, 0⟩ : Reader Bytes) = ⟨fileConvertContextRead, d, 0⟩ := rfl
  have hsim := runConversion_sim sameReader_sim (counts_sim fun _ _ => rfl) E hr hw flags
  unfold convertFileHash converted
  generalize runConversion E ⟨fileConvertContextRead, d, 0⟩ ⟨sha1ConvertContextWrite, [], 0⟩ flags = x at hsim
  cases x with
  | error s => rfl
  | ok p =>
    have htotal := hsim.2.total
    simp [htotal]

/-- What SHA-1 gets and what the sink counts, when a file is read past SHA-1. -/
theorem runConversion_duplicate (d : Bytes) (flags : ConvertFlags) :
    (do let (r, w) ← runConversion E
          ⟨duplicateConvertIoRead fileConvertContextRead sha1ConvertContextWrite, (d, []), 0⟩
          ⟨nullConvertContextWrite, (), 0⟩ flags
        return (r.userData.2, w.total)) =
      (fun z => (d, z.length)) <$> converted E flags d := by
  have hr : DuplicateReads d
      ⟨duplicateConvertIoRead fileConvertContextRead sha1ConvertContextWrite, (d, []), 0⟩
      ⟨fileConvertContextRead, d, 0⟩ := ⟨rfl, rfl, rfl, rfl⟩
  have hw : Counts nullConvertContextWrite ⟨nullConvertContextWrite, (), 0⟩
      ⟨sha1ConvertContextWrite, [], 0⟩ := ⟨rfl, rfl, rfl⟩
  have hsim := runConversion_sim (duplicateReads_sim d) (counts_sim fun _ _ => rfl) E hr hw flags
  unfold converted
  cases hy : runConversion E ⟨fileConvertContextRead, d, 0⟩ ⟨sha1ConvertContextWrite, [], 0⟩ flags with
  | error s =>
    rw [hy] at hsim
    generalize runConversion E ⟨duplicateConvertIoRead fileConvertContextRead sha1ConvertContextWrite,
      (d, []), 0⟩ ⟨nullConvertContextWrite, (), 0⟩ flags = x at hsim
    cases x with
    | ok p => exact hsim.elim
    | error s' => exact congrArg Except.error hsim
  | ok p' =>
    rw [hy] at hsim
    obtain ⟨⟨r, w⟩, hx, hr, hw⟩ := hsim.ok_right
    have hwhole := hr.whole
    rw [hr.rest, runConversion_rest E hy, List.append_nil] at hwhole
    rw [hx]
    simp only at hwhole hw
    simp [hwhole, hw.total]

/-- **The hash and the compressed size of a file.** -/
theorem convertFileZsizeHash_eq (d : Bytes) (hash : SfmfFileHash) (wantZsize : Bool) :
    convertFileZsizeHash E d hash wantZsize =
      if wantZsize then
        (fun z => ({ hash with hashtype := hashtypeSha1, hash := E.sha1 d }, some (UInt32.ofNat z.length))) <$>
          converted E .zcompress d
      else .ok (⟨UInt32.ofNat d.length, hashtypeSha1, E.sha1 d⟩, none) := by
  have hrun := runConversion_duplicate E d (if wantZsize then .zcompress else .none)
  unfold convertFileZsizeHash
  generalize runConversion E ⟨duplicateConvertIoRead fileConvertContextRead sha1ConvertContextWrite,
    (d, []), 0⟩ ⟨nullConvertContextWrite, (), 0⟩ (if wantZsize then .zcompress else .none) = x at hrun
  cases wantZsize with
  | false =>
    simp only [Bool.false_eq_true, if_false, converted_none] at hrun ⊢
    cases x with
    | error s => cases hrun
    | ok p =>
      obtain ⟨hd, hl⟩ := Prod.mk.inj (Except.ok.inj hrun)
      simp [hd, hl]
  | true =>
    simp only [if_true] at hrun ⊢
    generalize converted E .zcompress d = y at hrun
    cases x with
    | error s =>
      cases y with
      | error s' => exact congrArg Except.error (Except.error.inj hrun)
      | ok z => cases hrun
    | ok p =>
      cases y with
      | error s' => cases hrun
      | ok z =>
        obtain ⟨hd, hl⟩ := Prod.mk.inj (Except.ok.inj hrun)
        simp [hd, hl]

/-- **When a file verifies**: its conversion ends, and what comes out has the expected length
(as a 32-bit number) and SHA-1. -/
theorem sfmfFilehashVerify_ok {expected : SfmfFileHash} {d : Bytes} {zcompressed r : Bool} :
    sfmfFilehashVerify E expected d zcompressed = .ok r ↔
      ∃ b, converted E (if zcompressed then .zuncompress else .none) d = .ok b ∧
        expected.hashtype = hashtypeSha1 ∧
        r = decide (⟨UInt32.ofNat b.length, hashtypeSha1, E.sha1 b⟩ = expected) := by
  unfold sfmfFilehashVerify
  rw [convertFileHash_eq]
  simp only [bind_ok, map_ok, sfmfFilehashCompare_ok, sfmfFilehashFormat_ok]
  constructor
  · rintro ⟨_, ⟨b, hb, rfl⟩, _, ⟨ht, _⟩, same, ⟨_, _, hsame⟩, hr⟩
    refine ⟨b, hb, ht, ?_⟩
    rw [← hsame]
    cases same with
    | true => exact (Except.ok.inj hr).symm
    | false =>
      simp only [Bool.false_eq_true, if_false, bind_ok, pure_eq_ok, Except.ok.injEq] at hr
      obtain ⟨_, _, hr⟩ := hr
      exact hr.symm
  · rintro ⟨b, hb, ht, rfl⟩
    refine ⟨_, ⟨b, hb, rfl⟩, _, ⟨ht, rfl⟩, _, ⟨rfl, ht, rfl⟩, ?_⟩
    by_cases he : ⟨UInt32.ofNat b.length, hashtypeSha1, E.sha1 b⟩ = expected
    · simp [he]
    · simp [he, sfmfFilehashFormat]

/-! ## Environments given by a table -/

/-- A zlib that knows the streams of some byte strings, and refuses all other data. -/
def Zlib.ofTable (table : List (Bytes × Bytes)) : Zlib where
  Deflate := Bytes
  Inflate := Bytes × Bool
  deflateInit := []
  inflateInit := ([], false)
  deflate s input _ flush :=
    match flush with
    | .noFlush => ⟨s ++ input, input.length, [], .ok⟩
    | .finish =>
      match table.find? fun entry => entry.1 = s ++ input with
      | some entry => ⟨s ++ input, input.length, entry.2, .streamEnd⟩
      | none => ⟨s ++ input, input.length, [], .streamError⟩
  inflate s input _ _ :=
    if s.2 then ⟨s, 0, [], .streamEnd⟩
    else
      match table.find? fun entry => entry.2 = s.1 ++ input with
      | some entry => ⟨(s.1 ++ input, true), input.length, entry.1, .streamEnd⟩
      | none => ⟨s, 0, [], .dataError⟩

/-- An environment that knows the streams and the digests of some byte strings, on a file system
without reflinks. -/
def Env.ofTable (table : List (Bytes × Bytes × Digest)) : Env where
  zlib := Zlib.ofTable (table.map fun entry => (entry.1, entry.2.1))
  sha1 d := ((table.find? fun entry => entry.1 = d).map fun entry => entry.2.2).getD SfmfFileHash.zero.hash
  fuel := 4
  flush b := b.length
  clone _ := false

theorem Env.ofTable_noReflink (table : List (Bytes × Bytes × Digest)) : (Env.ofTable table).NoReflink :=
  fun _ => rfl

/-- 32 times the letter `a`. -/
def letters : Bytes := List.replicate 32 0x61

/-- The compressed form of the letters. -/
def lettersDeflated : Bytes := [120, 156, 75, 76, 196, 15, 0, 200, 48, 12, 33]

/-- The SHA-1 of the letters. -/
def lettersDigest : Digest := ⟨[104, 248, 74, 89, 163, 202, 45, 14, 92, 177, 100, 111, 187, 22, 77, 164, 9, 181, 216, 242], by decide⟩

/-- The SHA-1 of one letter `a`. -/
def letterDigest : Digest :=
  ⟨[134, 247, 228, 55, 250, 165, 167, 252, 225, 93, 29, 220, 185, 234, 234, 234, 55, 118, 103, 184], by decide⟩

end Sfmf

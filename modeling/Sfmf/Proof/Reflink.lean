import Sfmf.Proof.Layout

/-!
# The reflink shortcut

`convert_file_fp` replaces a plain copy by a clone of the whole file when the file
system can do it. The clone goes to the beginning of the destination, past the
stream.

* `clone_agrees_iff`: one clone in a script of writes agrees with the copy exactly
  when it clones nothing, or when nothing else is written to the file.
* `reflink_agrees_iff`: the same for every call and every outcome of the calls.
* `packOps_clone`, `manifestOps_clone`: in a pack or a manifest only the clone of an
  empty file agrees.
* `reflink_differs`: a pack of one file, where the clone destroys the header.
-/

namespace Sfmf

variable (E : Env)

/-! ## One clone in a script -/

theorem runOps_append (clone : ℕ → Bool) : ∀ (pre post : List StreamOp) (k : ℕ) (f : FILE),
    runOps E clone k f (pre ++ post) =
      runOps E clone k f pre >>= fun f => runOps E clone (k + pre.length) f post := by
  intro pre
  induction pre with
  | nil => intro post k f; rfl
  | cons op pre ih =>
    intro post k f
    simp only [List.cons_append, runOps, List.length_cons]
    cases op.run E (clone k) f with
    | error s => rfl
    | ok f' =>
      rw [ok_bind, ok_bind, ih]
      simp only [show k + (pre.length + 1) = k + 1 + pre.length by omega]

/-- **A file with one clone in its script**: the clone is made into what was written before it, and
what comes later is written behind that. -/
theorem writeFileWith_clone (clone : ℕ → Bool) (src : Bytes) {pre post : List StreamOp} {a b : List Bytes}
    (hpre : pre.mapM (StreamOp.out E) = .ok a) (hpost : post.mapM (StreamOp.out E) = .ok b)
    (hk : clone pre.length = true)
    (hcpre : ∀ (i : ℕ) (op : StreamOp), pre[i]? = some op → ¬ op.Clones (clone i))
    (hcpost : ∀ (i : ℕ) (op : StreamOp), post[i]? = some op → ¬ op.Clones (clone (pre.length + 1 + i))) :
    ∃ f : FILE, f.Sequential a.flatten ∧
      writeFileWith E clone (pre ++ .convertFile src .none :: post) =
        .ok ((f.cloneRange src).closeAfter b.flatten) := by
  have h1 := @runOps_rel E clone pre 0 .fopen fun i op hi => by simpa using hcpre i op hi
  rw [hpre] at h1
  obtain ⟨f, hf, happ⟩ := h1.ok_right
  refine ⟨f, by simpa using happ.sequential [] FILE.sequential_fopen, ?_⟩
  have h2 := @runOps_rel E clone post (pre.length + 1) (f.cloneRange src) hcpost
  rw [hpost] at h2
  obtain ⟨f', hf', happ'⟩ := h2.ok_right
  have hclose := happ'.close []
  rw [List.append_nil] at hclose
  have hop : (StreamOp.convertFile src .none).run E (clone pre.length) f = .ok (f.cloneRange src) := by
    simp [StreamOp.run, convertFileFp, hk]
  simp only [writeFileWith, runOps_append, hf, ok_bind, runOps, Nat.zero_add, hop, hf', pure_eq_ok]
  rw [FILE.fclose_eq, hclose]

/-- The file without the clone. -/
theorem writeFileWith_plain {ops : List StreamOp} {outs : List Bytes}
    (houts : ops.mapM (StreamOp.out E) = .ok outs) :
    writeFileWith E (fun _ => false) ops = .ok outs.flatten := by
  rw [writeFileWith_eq E fun _ _ _ h => Bool.false_ne_true h.1, houts]
  rfl

/-- All but one of the parts are empty. -/
def OnlyPart (outs : List Bytes) (k : ℕ) : Prop := ∀ (j : ℕ) (b : Bytes), j ≠ k → outs[j]? = some b → b = []

theorem onlyPart_split {a b : List Bytes} {p : Bytes} :
    OnlyPart (a ++ p :: b) a.length ↔ a.flatten = [] ∧ b.flatten = [] := by
  simp only [List.flatten_eq_nil_iff]
  constructor
  · intro h
    refine ⟨fun x hx => ?_, fun x hx => ?_⟩
    · obtain ⟨i, hi, rfl⟩ := List.getElem_of_mem hx
      exact h i _ (by omega) (by simp [List.getElem?_append_left hi, hi])
    · obtain ⟨i, hi, rfl⟩ := List.getElem_of_mem hx
      refine h (a.length + (i + 1)) _ (by omega) ?_
      rw [List.getElem?_append_right (by omega), Nat.add_sub_cancel_left, List.getElem?_cons_succ,
        List.getElem?_eq_getElem hi]
  · rintro ⟨ha, hb⟩ j x hj hx
    rcases Nat.lt_or_gt_of_ne hj with hlt | hgt
    · rw [List.getElem?_append_left hlt] at hx
      exact ha x (List.mem_of_getElem? hx)
    · rw [List.getElem?_append_right (by omega), show j - a.length = (j - a.length - 1) + 1 by omega,
        List.getElem?_cons_succ] at hx
      exact hb x (List.mem_of_getElem? hx)

/-- A script, taken apart at a plain copy. -/
theorem script_split {ops : List StreamOp} {outs : List Bytes} {k : ℕ} {src : Bytes}
    (houts : ops.mapM (StreamOp.out E) = .ok outs) (hk : ops[k]? = some (.convertFile src .none)) :
    ∃ pre post a b, ops = pre ++ .convertFile src .none :: post ∧ outs = a ++ src :: b ∧ pre.length = k ∧
      a.length = k ∧ pre.mapM (StreamOp.out E) = .ok a ∧ post.mapM (StreamOp.out E) = .ok b := by
  obtain ⟨hi, hop⟩ := List.getElem?_eq_some_iff.1 hk
  have hsplit : ops = ops.take k ++ .convertFile src .none :: ops.drop (k + 1) := by
    conv_lhs => rw [← List.take_append_drop k ops, List.drop_eq_getElem_cons hi, hop]
  rw [hsplit] at houts
  obtain ⟨a, b, ha, hb, rfl⟩ := mapM_append_ok.1 houts
  simp only [List.mapM_cons, bind_ok, StreamOp.out, converted_none, Except.ok.injEq, pure_eq_ok] at hb
  obtain ⟨_, rfl, b, hb, rfl⟩ := hb
  have hlen : (ops.take k).length = k := by rw [List.length_take]; omega
  exact ⟨_, _, a, b, hsplit, rfl, hlen, by rw [← (mapM_ok.1 ha).length_eq, hlen], ha, hb⟩

/-- **When one clone agrees with the copy**: when it clones nothing, or nothing else is in the file. -/
theorem clone_agrees_iff {ops : List StreamOp} {outs : List Bytes} {k : ℕ} {src : Bytes}
    (houts : ops.mapM (StreamOp.out E) = .ok outs) (hk : ops[k]? = some (.convertFile src .none)) :
    writeFileWith E (fun j => j = k) ops = writeFileWith E (fun _ => false) ops ↔ src = [] ∨ OnlyPart outs k := by
  rw [writeFileWith_plain E houts]
  obtain ⟨pre, post, a, b, rfl, rfl, hpl, hal, hpre, hpost⟩ := script_split E houts hk
  obtain ⟨f, hf, hclone⟩ := writeFileWith_clone E (fun j => j = k) src hpre hpost
    (by simp [hpl])
    (fun i op hi h => by
      have := (List.getElem?_eq_some_iff.1 hi).1
      have := h.1
      simp only [decide_eq_true_eq] at this
      omega)
    (fun i op _ h => by
      have := h.1
      simp only [decide_eq_true_eq] at this
      omega)
  rw [hclone, Except.ok.injEq, List.flatten_append, List.flatten_cons, ← List.append_assoc, hf.cloneRange_iff,
    ← hal, onlyPart_split]

/-! ## All calls -/

/-- What a clone that clones nothing leaves to see: the file is what is written besides. -/
theorem writeFileWith_agrees {ops : List StreamOp} {outs : List Bytes}
    (houts : ops.mapM (StreamOp.out E) = .ok outs)
    (hall : ∀ (k : ℕ) (src : Bytes), ops[k]? = some (.convertFile src .none) → src = [] ∨ OnlyPart outs k)
    (clone : ℕ → Bool) : writeFileWith E clone ops = .ok outs.flatten := by
  by_cases hc : ∀ (i : ℕ) (op : StreamOp), ops[i]? = some op → ¬ op.Clones (clone i)
  · rw [writeFileWith_eq E hc, houts]
    rfl
  -- the call that clones something is the only one that writes something
  push Not at hc
  obtain ⟨k, op, hk, hclone, src, rfl, hsrc⟩ := hc
  have honly : OnlyPart outs k := (hall k src hk).resolve_left hsrc
  obtain ⟨pre, post, a, b, rfl, rfl, hpl, hal, hpre, hpost⟩ := script_split E houts hk
  rw [← hal, onlyPart_split] at honly
  have hempty : ∀ (i : ℕ) (op : StreamOp), (pre ++ .convertFile src .none :: post)[i]? = some op → i ≠ k →
      ¬ op.Clones (clone i) := by
    rintro i op hi hik ⟨_, src', rfl, hsrc'⟩
    rcases hall i src' hi with h | h
    · exact hsrc' h
    · refine hsrc (h k src (Ne.symm hik) ?_)
      rw [← hal, List.getElem?_append_right le_rfl, Nat.sub_self]
      rfl
  obtain ⟨f, hf, hrun⟩ := writeFileWith_clone E clone src hpre hpost (by rw [hpl]; exact hclone)
    (fun i op hi => by
      have hlt := (List.getElem?_eq_some_iff.1 hi).1
      exact hempty i op (by rw [List.getElem?_append_left hlt, hi]) (by omega))
    (fun i op hi => by
      refine hempty _ op ?_ (by omega)
      rw [List.getElem?_append_right (by omega), show pre.length + 1 + i - pre.length = i + 1 by omega,
        List.getElem?_cons_succ, hi])
  rw [hrun, List.flatten_append, List.flatten_cons, honly.1, honly.2]
  rw [honly.1] at hf
  simpa using (hf.cloneRange_iff src []).2 (.inr ⟨rfl, rfl⟩)

/-- **The shortcut agrees with the copy exactly where it clones nothing or where nothing else is
written**: call by call, and for all outcomes of all calls in the script of a file. -/
theorem reflink_agrees_iff {ops : List StreamOp} {outs : List Bytes}
    (houts : ops.mapM (StreamOp.out E) = .ok outs) :
    (∀ (k : ℕ) (src : Bytes), ops[k]? = some (.convertFile src .none) →
      (writeFileWith E (fun j => j = k) ops = writeFileWith E (fun _ => false) ops ↔
        src = [] ∨ OnlyPart outs k)) ∧
    ((∀ clone, writeFileWith E clone ops = writeFileWith E (fun _ => false) ops) ↔
      ∀ (k : ℕ) (src : Bytes), ops[k]? = some (.convertFile src .none) → src = [] ∨ OnlyPart outs k) := by
  refine ⟨fun k src hk => clone_agrees_iff E houts hk, fun h k src hk => ?_, fun h clone => ?_⟩
  · exact (clone_agrees_iff E houts hk).1 (h _)
  · rw [writeFileWith_agrees E houts h clone, writeFileWith_plain E houts]

/-! ## The callers -/

/-- A new file that one conversion is written to: `convert_file` and `write_blob_data`. -/
theorem single_clone {op : StreamOp} {out : Bytes} (hout : op.out E = .ok out) (clone : ℕ → Bool) :
    writeFileWith E clone [op] = writeFileWith E (fun _ => false) [op] := by
  have houts : [op].mapM (StreamOp.out E) = .ok [out] := mapM_ok.2 (.cons hout .nil)
  have hall : ∀ (k : ℕ) (src : Bytes), [op][k]? = some (.convertFile src .none) → src = [] ∨ OnlyPart [out] k := by
    intro k src hk
    have hk0 : k = 0 := by
      have := (List.getElem?_eq_some_iff.1 hk).1
      simpa using this
    subst hk0
    refine .inr fun j b hj hb => ?_
    have := (List.getElem?_eq_some_iff.1 hb).1
    simp only [List.length_singleton] at this
    omega
  rw [writeFileWith_agrees E houts hall, writeFileWith_plain E houts]

/-- Behind a header only a clone of nothing agrees. -/
theorem clone_behind_header {header : Bytes} {ops : List StreamOp} {outs : List Bytes} {k : ℕ} {src : Bytes}
    (hheader : header ≠ []) (houts : (.fwrite header :: ops).mapM (StreamOp.out E) = .ok outs)
    (hk : (.fwrite header :: ops)[k]? = some (.convertFile src .none)) :
    writeFileWith E (fun j => j = k) (.fwrite header :: ops) =
      writeFileWith E (fun _ => false) (.fwrite header :: ops) ↔ src = [] := by
  rw [clone_agrees_iff E houts hk, or_iff_left]
  intro honly
  simp only [List.mapM_cons, StreamOp.out, pure_eq_ok, ok_bind, bind_ok, Except.ok.injEq] at houts
  obtain ⟨outs, _, rfl⟩ := houts
  refine hheader (honly 0 header ?_ rfl)
  rintro rfl
  simp at hk

/-- **In a pack only the clone of an empty file agrees.** -/
theorem packOps_clone {D : Disk} {opts : PackOptions} {entry : PackEntry} {ops : List StreamOp}
    {outs : List Bytes} {k : ℕ} {src : Bytes} (hops : packOps D opts entry = .ok ops)
    (houts : ops.mapM (StreamOp.out E) = .ok outs) (hk : ops[k]? = some (.convertFile src .none)) :
    writeFileWith E (fun j => j = k) ops = writeFileWith E (fun _ => false) ops ↔ src = [] := by
  simp only [packOps, bind_ok, pure_eq_ok, Except.ok.injEq] at hops
  obtain ⟨metadata, _, _, _, payload, _, rfl⟩ := hops
  have hheader : (packHeader opts entry).encode ≠ [] := by
    intro he; have := congrArg List.length he; simp [sfpfFileHeaderSize] at this
  exact clone_behind_header E hheader houts hk

/-- **In a manifest only the clone of an empty file agrees.** -/
theorem manifestOps_clone {D : Disk} {opts : PackOptions} {files : List FileEntry} {packs : List PackEntry}
    {included : List FileEntry} {ops : List StreamOp} {outs : List Bytes} {k : ℕ} {src : Bytes}
    (hops : manifestOps D opts files packs included = .ok ops)
    (houts : ops.mapM (StreamOp.out E) = .ok outs) (hk : ops[k]? = some (.convertFile src .none)) :
    writeFileWith E (fun j => j = k) ops = writeFileWith E (fun _ => false) ops ↔ src = [] := by
  simp only [manifestOps, bind_ok, pure_eq_ok, Except.ok.injEq] at hops
  obtain ⟨names, _, metadata, _, entries, _, payload, _, rfl⟩ := hops
  have hheader : (manifestHeader opts files names packs included).encode ≠ [] := by
    intro he; have := congrArg List.length he; simp [sfmfFileHeaderSize] at this
  exact clone_behind_header E hheader houts hk

/-! ## A pack of one file -/

/-- A disk on which every file holds the letter `a`. -/
def letterDisk : Disk := ⟨fun _ => none, fun _ => none, fun _ => some [0x61]⟩

/-- A file with the letter `a`, which does not compress well. -/
def letterFile : FileEntry where
  filename := ⟨str ['i', 'n', '/', 'a'], by decide⟩
  st := ⟨1, 0o100644, 0, 0, 0, 1, 0⟩
  zsize := 9
  hash := ⟨1, hashtypeSha1, letterDigest⟩
  duplicate := false
  hardlinkIndex := -1

/-- The pack of this file. -/
def letterPack : PackEntry := ⟨[letterFile], 1, 0, .zero⟩

def letterOptions : PackOptions := ⟨⟨str ['i', 'n'], by decide⟩, 0, 1, 1, str ['m', '\x00']⟩

theorem reflink_agrees_iff_letterPack : ∃ ops outs, packOps letterDisk letterOptions letterPack = .ok ops ∧
    ops.mapM (StreamOp.out (Env.ofTable [])) = .ok outs ∧
    (∀ (k : ℕ) (src : Bytes), ops[k]? = some (.convertFile src .none) →
      (writeFileWith (Env.ofTable []) (fun j => j = k) ops = writeFileWith (Env.ofTable []) (fun _ => false) ops ↔
        src = [] ∨ OnlyPart outs k)) ∧
    ((∀ clone, writeFileWith (Env.ofTable []) clone ops = writeFileWith (Env.ofTable []) (fun _ => false) ops) ↔
      ∀ (k : ℕ) (src : Bytes), ops[k]? = some (.convertFile src .none) → src = [] ∨ OnlyPart outs k) :=
  ⟨_, _, rfl, rfl, reflink_agrees_iff (Env.ofTable []) rfl⟩

/-- **The clone is written over the header of the pack**, so the file is not the one that the copy
makes. -/
theorem reflink_differs : ∃ ops, packOps letterDisk letterOptions letterPack = .ok ops ∧
    ops[3]? = some (.convertFile [0x61] .none) ∧
    writeFileWith (Env.ofTable []) (fun j => j = 3) ops ≠ writeFileWith (Env.ofTable []) (fun _ => false) ops := by
  refine ⟨_, rfl, rfl, ?_⟩
  decide +kernel

end Sfmf

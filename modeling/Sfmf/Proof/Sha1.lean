import Sfmf.Spec.Sha1

/-!
# `sha1.c` is SHA-1

* `Transforming.step`, `sha1Transform_eq`: the calls in `SHA1_Transform` are the 80 steps of SHA-1. The 16 words
  of the buffer are a window on the message schedule, and the names turn around instead of the
  values.
* `sha1Transform_compression`: it adds a block to the state as the standard has it.
* `sha1Final_pieces`: the digest of a message in pieces, with the number of bits that was counted.
* `sha1_of_pieces`: it is the SHA-1 of the message where all pieces are of less than 2 ^ 29 bytes.
-/

namespace Sfmf

open Sha1 (Words)

/-! ## Words -/

theorem mix_ch (x y z : UInt32) : (x &&& (y ^^^ z)) ^^^ z = Sha1.ch x y z := by
  rw [← UInt32.toBitVec_inj]
  refine BitVec.eq_of_getLsbD_eq fun i _ => ?_
  simp only [Sha1.ch, UInt32.toBitVec_xor, UInt32.toBitVec_and, UInt32.toBitVec_not, BitVec.getLsbD_xor,
    BitVec.getLsbD_and, BitVec.getLsbD_not]
  cases x.toBitVec.getLsbD i <;> cases y.toBitVec.getLsbD i <;> cases z.toBitVec.getLsbD i <;> simp_all

theorem mix_maj (x y z : UInt32) : ((x ||| y) &&& z) ||| (x &&& y) = Sha1.maj x y z := by
  rw [← UInt32.toBitVec_inj]
  refine BitVec.eq_of_getLsbD_eq fun i _ => ?_
  simp only [Sha1.maj, UInt32.toBitVec_xor, UInt32.toBitVec_and, UInt32.toBitVec_or, BitVec.getLsbD_xor,
    BitVec.getLsbD_and, BitVec.getLsbD_or]
  cases x.toBitVec.getLsbD i <;> cases y.toBitVec.getLsbD i <;> cases z.toBitVec.getLsbD i <;> rfl

/-- The bits of a number of four bytes. -/
theorem toBitVec_ofBe (a b c d : UInt8) :
    (UInt32.ofNat (ofBe [a, b, c, d])).toBitVec = a.toBitVec ++ b.toBitVec ++ c.toBitVec ++ d.toBitVec := by
  have hnat : ofBe [a, b, c, d] = (a.toBitVec ++ b.toBitVec ++ c.toBitVec ++ d.toBitVec).toNat := by
    simp only [BitVec.toNat_append, UInt8.toNat_toBitVec]
    rw [← Nat.shiftLeft_add_eq_or_of_lt b.toNat_lt, ← Nat.shiftLeft_add_eq_or_of_lt c.toNat_lt,
      ← Nat.shiftLeft_add_eq_or_of_lt d.toNat_lt]
    simp only [ofBe, List.foldl_cons, List.foldl_nil, Nat.shiftLeft_eq]
    ring
  rw [hnat]
  exact BitVec.eq_of_toNat_eq (Nat.mod_eq_of_lt (BitVec.isLt _))

/-- `blk0` turns the bytes of a word around. -/
theorem blk0_four (a b c d : UInt8) :
    (rol (UInt32.ofNat (ofBe [d, c, b, a])) 24 &&& 0xFF00FF00) |||
      (rol (UInt32.ofNat (ofBe [d, c, b, a])) 8 &&& 0x00FF00FF) = UInt32.ofNat (ofBe [a, b, c, d]) := by
  rw [← UInt32.toBitVec_inj, toBitVec_ofBe]
  have h24 : ∀ x : UInt32, (rol x 24).toBitVec = x.toBitVec <<< 24 ||| x.toBitVec >>> 8 := fun _ => rfl
  have h8 : ∀ x : UInt32, (rol x 8).toBitVec = x.toBitVec <<< 8 ||| x.toBitVec >>> 24 := fun _ => rfl
  have hhi : (0xFF00FF00 : UInt32).toBitVec = 0xFF00FF00#32 := rfl
  have hlo : (0x00FF00FF : UInt32).toBitVec = 0x00FF00FF#32 := rfl
  rw [UInt32.toBitVec_or, UInt32.toBitVec_and, UInt32.toBitVec_and, h24, h8, toBitVec_ofBe, hhi, hlo]
  -- bit by bit
  refine BitVec.eq_of_getLsbD_eq fun i hi => ?_
  simp only [BitVec.getLsbD_or, BitVec.getLsbD_and, BitVec.getLsbD_shiftLeft, BitVec.getLsbD_ushiftRight,
    BitVec.getLsbD_append]
  interval_cases i <;> simp

/-- A word of the buffer, as `blk0` reads it. -/
theorem blk0_word (c : Buffer64) {i : ℕ} (hi : i < 16) :
    (rol (getLong c.val i) 24 &&& 0xFF00FF00) ||| (rol (getLong c.val i) 8 &&& 0x00FF00FF) = Sha1.word c.val i := by
  have hlen : (slice c.val (4 * i) 4).length = 4 := by
    have := c.2
    rw [slice, List.length_take, List.length_drop]
    omega
  rw [getLong, Sha1.word]
  obtain ⟨w, x, y, z, h⟩ := List.length_eq_four.1 hlen
  rw [h]
  exact blk0_four w x y z

/-! ## Names -/

/-- The name of the variable at a place of the round. -/
def varAt (n : Fin 5) : Reg := ([.a, .b, .c, .d, .e] : List Reg).get n

@[simp] theorem getReg_setReg (s : Words) (r r' : Reg) (x : UInt32) :
    getReg (setReg s r x) r' = if r' = r then x else getReg s r' := by
  cases r <;> cases r' <;> rfl

/-- The macro of call `t`. -/
def macroAt (t : ℕ) : RMacro :=
  if t < 16 then .R0 else if t < 20 then .R1 else if t < 40 then .R2 else if t < 60 then .R3 else .R4

/-- **Call `t`**: the names are those of call `0`, turned around `t` times. -/
def callAt (t : ℕ) : RCall :=
  let n : Fin 5 := Fin.ofNat 5 t
  ⟨macroAt t, varAt (0 - n), varAt (1 - n), varAt (2 - n), varAt (3 - n), varAt (4 - n), t⟩

theorem transformCalls_eq : transformCalls = (List.range 80).map callAt := by decide

theorem macroAt_mix (t : ℕ) (w x y : UInt32) : (macroAt t).mix w x y = Sha1.func t w x y := by
  unfold macroAt Sha1.func
  split_ifs <;> first | exact mix_ch w x y | exact mix_maj w x y | rfl | omega

theorem macroAt_add (t : ℕ) : (macroAt t).add = Sha1.const t := by
  unfold macroAt Sha1.const
  split_ifs <;> first | rfl | omega

/-! ## The transformation -/

/-- The variables at the places of call `t`. -/
def varsAt (t : ℕ) (s : Words) : Words :=
  let n : Fin 5 := Fin.ofNat 5 t
  ⟨getReg s (varAt (0 - n)), getReg s (varAt (1 - n)), getReg s (varAt (2 - n)), getReg s (varAt (3 - n)),
    getReg s (varAt (4 - n))⟩

/-- **Before call `t`**: the variables are those of SHA-1, and the words are the window of the last 16 words of the
message schedule, with what is left of the block behind it. -/
structure Transforming (h : Words) (c : Buffer64) (t : ℕ) (s : Words × Long16) : Prop where
  vars : varsAt t s.1 = Sha1.rounds c.val h t
  window : ∀ i < t, t ≤ i + 16 → s.2.get (at15 i) = Sha1.schedule c.val i
  ahead : ∀ i < 16, t ≤ i → s.2.get (at15 i) = getLong c.val i

theorem at15_eq_iff {i j : ℕ} : at15 i = at15 j ↔ i % 16 = j % 16 := by
  simp [at15, Fin.ext_iff]

theorem get_eq (l : Long16) (n : Fin 16) : l.get n = l[n.val] := rfl

/-- A word that is stored. -/
theorem get_set (l : Long16) (i j : ℕ) (x : UInt32) :
    (l.set (at15 i) x (at15 i).isLt).get (at15 j) = if i % 16 = j % 16 then x else l.get (at15 j) := by
  rw [get_eq, get_eq, Vector.getElem_set]
  rfl

/-- The word of call `t`. -/
theorem Transforming.word {h : Words} {c : Buffer64} {t : ℕ} {s : Words × Long16} (T : Transforming h c t s) :
    (macroAt t).block s.2 t = (Sha1.schedule c.val t, s.2.set (at15 t) (Sha1.schedule c.val t) (at15 t).isLt) := by
  by_cases ht : t < 16
  · have hfirst : macroAt t = .R0 := if_pos ht
    have hword : Sha1.schedule c.val t = Sha1.word c.val t := by rw [Sha1.schedule, if_pos ht]
    rw [hfirst, hword, ← blk0_word c ht, ← T.ahead t ht le_rfl]
    rfl
  · have hblock : (macroAt t).block = blk := by
      rw [macroAt, if_neg ht]
      split_ifs <;> rfl
    -- the four words that are read are in the window
    have hback : ∀ k m, k + m = 16 → 0 < m → s.2.get (at15 (t + k)) = Sha1.schedule c.val (t - m) := by
      intro k m hkm hm
      rw [← T.window (t - m) (by omega) (by omega)]
      congr 1
      exact at15_eq_iff.2 (by omega)
    have h16 : s.2.get (at15 t) = Sha1.schedule c.val (t - 16) := hback 0 16 rfl (by decide)
    have hsched : Sha1.schedule c.val t = Sha1.rotl 1 (Sha1.schedule c.val (t - 3) ^^^ Sha1.schedule c.val (t - 8) ^^^
        Sha1.schedule c.val (t - 14) ^^^ Sha1.schedule c.val (t - 16)) := by
      conv_lhs => rw [Sha1.schedule, if_neg ht]
    rw [hblock, hsched, ← hback 13 3 rfl (by decide), ← hback 8 8 rfl (by decide), ← hback 2 14 rfl (by decide), ← h16]
    rfl

/-- Two places of a call are different variables. -/
theorem varAt_sub_eq_iff {m n k : Fin 5} : varAt (m - k) = varAt (n - k) ↔ m = n := by
  revert m n k
  decide

/-- The places move by one. -/
theorem sub_ofNat_succ (m : Fin 5) (t : ℕ) : m + 1 - Fin.ofNat 5 (t + 1) = m - Fin.ofNat 5 t := by
  have h : Fin.ofNat 5 (t + 1) = Fin.ofNat 5 t + 1 := by
    apply Fin.ext
    simp [Fin.val_add]
  rw [h, add_sub_add_right_eq_sub]

/-- **A call moves the variables by one place**: the first is new, and the third is rotated. -/
theorem varsAt_run (t : ℕ) (s : Words) (z r : UInt32) :
    varsAt (t + 1) (setReg (setReg s (callAt t).z z) (callAt t).w r) =
      ⟨z, (varsAt t s).a, r, (varsAt t s).c, (varsAt t s).d⟩ := by
  have h0 : (0 : Fin 5) - Fin.ofNat 5 (t + 1) = 4 - Fin.ofNat 5 t := sub_ofNat_succ 4 t
  have h1 : (1 : Fin 5) - Fin.ofNat 5 (t + 1) = 0 - Fin.ofNat 5 t := sub_ofNat_succ 0 t
  have h2 : (2 : Fin 5) - Fin.ofNat 5 (t + 1) = 1 - Fin.ofNat 5 t := sub_ofNat_succ 1 t
  have h3 : (3 : Fin 5) - Fin.ofNat 5 (t + 1) = 2 - Fin.ofNat 5 t := sub_ofNat_succ 2 t
  have h4 : (4 : Fin 5) - Fin.ofNat 5 (t + 1) = 3 - Fin.ofNat 5 t := sub_ofNat_succ 3 t
  simp only [varsAt, h0, h1, h2, h3, h4, callAt, getReg_setReg, varAt_sub_eq_iff]
  rfl

/-- **A call is a step of SHA-1.** -/
theorem Transforming.step {h : Words} {c : Buffer64} {t : ℕ} {s : Words × Long16} (T : Transforming h c t s) :
    Transforming h c (t + 1) ((callAt t).run s) := by
  obtain ⟨vars, l⟩ := s
  have hrun : (callAt t).run (vars, l) = (setReg (setReg vars (callAt t).z ((varsAt t vars).e +
      (Sha1.func t (varsAt t vars).b (varsAt t vars).c (varsAt t vars).d + Sha1.schedule c.val t + Sha1.const t +
        rol (varsAt t vars).a 5))) (callAt t).w (rol (varsAt t vars).b 30),
      l.set (at15 t) (Sha1.schedule c.val t) (at15 t).isLt) := by
    have hword := T.word
    have hother : (callAt t).w ≠ (callAt t).z := fun heq => absurd (varAt_sub_eq_iff.1 heq) (by decide)
    rw [RCall.run]
    simp only [show (callAt t).macroName = macroAt t from rfl, show (callAt t).i = t from rfl]
    rw [hword]
    simp only [getReg_setReg, if_neg hother, macroAt_mix, macroAt_add]
    rfl
  rw [hrun]
  constructor
  · rw [varsAt_run, T.vars, Sha1.rounds, Sha1.step, rol, rol, Sha1.rotl, Sha1.rotl]
    congr 1
    ac_rfl
  · intro i hi hwin
    rw [get_set]
    split_ifs with heq
    · rw [show i = t by omega]
    · exact T.window i (by omega) (by omega)
  · intro i hi hle
    rw [get_set, if_neg (by omega)]
    exact T.ahead i hi (by omega)

/-- The words before the first call. -/
theorem Transforming.start (h : Words) (c : Buffer64) : Transforming h c 0 (h, Long16.load c.val) where
  vars := rfl
  window := fun i hi => absurd hi (Nat.not_lt_zero i)
  ahead := fun i hi _ => by
    rw [get_eq, Long16.load, Vector.getElem_ofFn]
    simp [at15, Nat.mod_eq_of_lt hi]

theorem Transforming.run (h : Words) (c : Buffer64) (t : ℕ) :
    Transforming h c t (((List.range t).map callAt).foldl RCall.run (h, Long16.load c.val)) := by
  induction t with
  | zero => exact Transforming.start h c
  | succ t ih =>
    rw [List.range_succ, List.map_append, List.foldl_append]
    exact ih.step

/-- The state after the 80 calls. -/
theorem sha1Transform_eq (state : Words) (buffer : Buffer64) :
    (sha1Transform state buffer).1 = Sha1.compression state buffer.val := by
  have hvars := (Transforming.run state buffer 80).vars
  rw [← transformCalls_eq] at hvars
  rw [sha1Transform, Sha1.compression, ← hvars]
  generalize transformCalls.foldl RCall.run (state, Long16.load buffer.val) = s
  rfl

/-- The words of the buffer are read back. -/
theorem getLong_store (l : Long16) {i : ℕ} (hi : i < 16) : getLong l.store.val i = l.get (at15 i) := by
  have hword : l.toList[i]? = some (l.get (at15 i)) := by
    have hlen : i < l.toList.length := by rw [Vector.length_toList]; exact hi
    rw [List.getElem?_eq_getElem hlen, Vector.getElem_toList, get_eq]
    congr 2
    exact (Nat.mod_eq_of_lt hi).symm
  have hslice : slice l.store.val (4 * i) 4 = (be 4 (l.get (at15 i)).toNat).reverse :=
    slice_flatMap_const (fun x => by simp) hword
  rw [getLong, hslice, List.reverse_reverse, ofBe_be (by simpa using (l.get (at15 i)).toNat_lt), UInt32.ofNat_toNat]

/-- **What is left in the buffer**: the last words of the message schedule. -/
theorem sha1Transform_buffer (state : Words) (buffer : Buffer64) {i : ℕ} (hi : i < 16) :
    getLong (sha1Transform state buffer).2.val i = Sha1.schedule buffer.val (64 + i) := by
  have hwindow := (Transforming.run state buffer 80).window (64 + i) (by omega) (by omega)
  rw [← transformCalls_eq] at hwindow
  rw [← hwindow, at15_eq_iff.2 (by omega : (64 + i) % 16 = i % 16), ← getLong_store _ hi, sha1Transform]

/-- **`SHA1_Transform` is the compression function of SHA-1**, and leaves the last words of the message schedule in the
buffer. -/
theorem sha1Transform_compression (state : Words) (buffer : Buffer64) :
    (sha1Transform state buffer).1 = Sha1.compression state buffer.val ∧
      ∀ i : Fin 16, getLong (sha1Transform state buffer).2.val i = Sha1.schedule buffer.val (64 + i) :=
  ⟨sha1Transform_eq state buffer, fun i => sha1Transform_buffer state buffer i.isLt⟩

/-! ## Updates -/

open Sha1 (compressor initial)

theorem memcpyAt_val {buffer : Buffer64} {j : ℕ} {data : Bytes} (h : j + data.length ≤ 64) :
    (memcpyAt buffer j data).val = buffer.val.take j ++ data ++ buffer.val.drop (j + data.length) := by
  have hlen := buffer.2
  refine List.take_of_length_le ?_
  simp only [List.length_append, List.length_take, List.length_drop]
  omega

/-- A block of the data, and what comes before it, do not matter behind it. -/
theorem drop_overwrite {data : Bytes} {i : ℕ} (h : i ≤ data.length) (b : Bytes) :
    (overwrite data i b).drop (i + b.length) = data.drop (i + b.length) := by
  unfold overwrite
  split_ifs with hb
  · rfl
  · refine List.drop_left' ?_
    simp only [List.length_append, List.length_take, List.length_replicate]
    omega

/-- **The loop over the full blocks** leaves what is behind them. -/
theorem updateLoop_spec {n : ℕ} {state : Words} {data : Bytes} {i : ℕ} (hi : i ≤ data.length)
    (hn : data.length - i < (n + 1) * 64) :
    (updateLoop n state data i).1 = compressor.chain state (data.drop i) ∧
      (updateLoop n state data i).2.1.drop (updateLoop n state data i).2.2 = compressor.rest (data.drop i) ∧
      (updateLoop n state data i).2.1.length = data.length := by
  induction n generalizing state data i with
  | zero =>
    have hshort : (data.drop i).length < compressor.size := by
      rw [List.length_drop]
      exact (by omega : data.length - i < 64)
    exact ⟨(compressor.chain_short hshort _).symm, (compressor.rest_short hshort).symm, rfl⟩
  | succ n ih =>
    rw [updateLoop]
    split_ifs with hfull
    · set block := (sha1Transform state (dataBlock data i hfull)).2 with hblock
      have hlen : (overwrite data i block.val).length = data.length := by
        rw [overwrite_length _ _ _ hi, block.2]
        omega
      have hdrop : (overwrite data i block.val).drop (i + 64) = data.drop (i + 64) := by
        have := drop_overwrite hi block.val
        rwa [block.2] at this
      have hsplit : data.drop i = (dataBlock data i hfull).val ++ data.drop (i + 64) := by
        rw [← List.drop_drop]
        exact (List.take_append_drop 64 (data.drop i)).symm
      have hstate : (sha1Transform state (dataBlock data i hfull)).1 =
          compressor.compress state (dataBlock data i hfull).val := sha1Transform_eq _ _
      have h64 : (dataBlock data i hfull).val.length = compressor.size := (dataBlock data i hfull).2
      obtain ⟨h1, h2, h3⟩ := @ih (sha1Transform state (dataBlock data i hfull)).1 (overwrite data i block.val) (i + 64)
        (by omega) (by omega)
      rw [hsplit, compressor.chain_block h64, compressor.rest_block h64, ← hstate]
      rw [hdrop] at h1 h2
      exact ⟨h1, h2, h3.trans hlen⟩
    · have hshort : (data.drop i).length < compressor.size := by
        rw [List.length_drop]
        exact (by omega : data.length - i < 64)
      exact ⟨(compressor.chain_short hshort _).symm, (compressor.rest_short hshort).symm, rfl⟩

/-- **A context that has taken in a message**, as far as its lower count can tell. -/
structure Absorbed (m : Bytes) (context : Sha1Ctx) : Prop where
  state : context.state = compressor.chain initial m
  buffer : context.buffer.val.take (m.length % 64) = compressor.rest m
  count0 : context.count0 = UInt32.ofNat (8 * m.length)

theorem Absorbed.init (context : Sha1Ctx) : Absorbed [] (sha1Init context) :=
  ⟨rfl, rfl, rfl⟩

theorem toNat_count0 (n : ℕ) : (UInt32.ofNat (8 * n)).toNat = 8 * n % 2 ^ 32 := rfl

theorem bufferPos_eq (n : ℕ) : bufferPos (UInt32.ofNat (8 * n)) = n % 64 := by
  have h : (63 : ℕ) = 2 ^ 6 - 1 := rfl
  have h3 : ((3 : UInt32).toNat % 32) = 3 := rfl
  rw [bufferPos, UInt32.toNat_and, UInt32.toNat_shiftRight, toNat_count0, h3, show (63 : UInt32).toNat = 2 ^ 6 - 1 from rfl,
    Nat.and_two_pow_sub_one_eq_mod, Nat.shiftRight_eq_div_pow]
  omega

theorem addCount0_eq (n len : ℕ) : addCount0 (UInt32.ofNat (8 * n)) len = UInt32.ofNat (8 * (n + len)) := by
  rw [addCount0, ← UInt32.toNat_inj, toNat_count0, lenBits]
  show (8 * n % 2 ^ 32 + len * 8 % 2 ^ 64) % 2 ^ 32 = 8 * (n + len) % 2 ^ 32
  omega

/-- What is behind a message, at the start of the buffer. -/
theorem take_memcpyAt_zero {buffer : Buffer64} {data : Bytes} {n : ℕ} (h : data.length = n) (hn : n < 64) :
    (memcpyAt buffer 0 data).val.take n = data := by
  rw [memcpyAt_val (by omega)]
  exact List.take_left' h

/-- **`SHA1_Update` takes in its data.** -/
theorem Absorbed.update {m : Bytes} {context : Sha1Ctx} (A : Absorbed m context) (data : Bytes) :
    Absorbed (m ++ data) (sha1Update context data).1 := by
  have hj : bufferPos context.count0 = m.length % 64 := by rw [A.count0, bufferPos_eq]
  have hc : addCount0 context.count0 data.length = UInt32.ofNat (8 * (m ++ data).length) := by
    rw [A.count0, addCount0_eq, List.length_append]
  have hlt : m.length % 64 < 64 := Nat.mod_lt _ (by decide)
  have hrest : (compressor.rest m).length = m.length % 64 := compressor.rest_length m
  have hrest' : (compressor.rest (m ++ data)).length = (m ++ data).length % 64 := compressor.rest_length _
  have hlt' : (m ++ data).length % 64 < 64 := Nat.mod_lt _ (by decide)
  rw [sha1Update]
  simp only [hj]
  split_ifs with hfull
  · -- the buffer is filled up, and the loop goes over the data behind
    set i := 64 - m.length % 64 with hi
    have htake : (data.take i).length = i := List.length_take_of_le (by omega)
    have hblock : (memcpyAt context.buffer (m.length % 64) (data.take i)).val = compressor.rest m ++ data.take i := by
      rw [memcpyAt_val (by omega), A.buffer, htake, List.drop_of_length_le (by rw [context.buffer.2]; omega),
        List.append_nil]
    have hsplit : compressor.rest m ++ data =
        (memcpyAt context.buffer (m.length % 64) (data.take i)).val ++ data.drop i := by
      rw [hblock, List.append_assoc, List.take_append_drop]
    have h64 : (memcpyAt context.buffer (m.length % 64) (data.take i)).val.length = compressor.size :=
      (memcpyAt context.buffer (m.length % 64) (data.take i)).2
    have hstate : (sha1Transform context.state (memcpyAt context.buffer (m.length % 64) (data.take i))).1 =
        compressor.compress context.state (memcpyAt context.buffer (m.length % 64) (data.take i)).val :=
      sha1Transform_eq _ _
    obtain ⟨h1, h2, -⟩ := @updateLoop_spec data.length
      (sha1Transform context.state (memcpyAt context.buffer (m.length % 64) (data.take i))).1 data i (by omega) (by omega)
    have hbehind : compressor.rest (data.drop i) = compressor.rest (m ++ data) := by
      rw [compressor.rest_append m, hsplit, compressor.rest_block h64]
    refine ⟨?_, ?_, hc⟩
    · rw [compressor.chain_append, hsplit, compressor.chain_block h64, ← A.state, ← hstate]
      exact h1
    · show (memcpyAt _ 0 _).val.take _ = _
      rw [h2, hbehind]
      exact take_memcpyAt_zero hrest' hlt'
  · -- the data does not fill the block
    have hshort : (compressor.rest m ++ data).length < compressor.size := by
      rw [List.length_append, hrest]
      exact (by omega : m.length % 64 + data.length < 64)
    have hmod : (m ++ data).length % 64 = m.length % 64 + data.length := by
      rw [List.length_append]
      omega
    refine ⟨?_, ?_, hc⟩
    · rw [compressor.chain_append, compressor.chain_short hshort, A.state]
    · show (memcpyAt context.buffer (m.length % 64) data).val.take _ = _
      rw [compressor.rest_append, compressor.rest_short hshort, memcpyAt_val (by omega), A.buffer]
      exact List.take_left' (by rw [List.length_append, hrest, hmod])

/-! ## The count of the bits -/

/-- The carry that is counted for a piece of `len` bytes behind `n` bytes, where the low words do not have one. -/
def spuriousCarry (n len : ℕ) : ℕ := if 2 ^ 29 ≤ len ∧ 8 * n % 2 ^ 32 + 8 * len % 2 ^ 32 < 2 ^ 32 then 1 else 0

/-- The two words of the count. -/
def Sha1Ctx.count (context : Sha1Ctx) : ℕ := context.count1.toNat * 2 ^ 32 + context.count0.toNat

theorem count_init (context : Sha1Ctx) : (sha1Init context).count = 0 := by
  simp [Sha1Ctx.count, sha1Init]

/-- **The count of a piece.** -/
theorem count_update {m : Bytes} {context : Sha1Ctx} (A : Absorbed m context) {data : Bytes}
    (hdata : data.length < 2 ^ 61) :
    (sha1Update context data).1.count % 2 ^ 64 =
      (context.count + (8 * data.length + 2 ^ 32 * spuriousCarry m.length data.length)) % 2 ^ 64 := by
  have hcount : (sha1Update context data).1.count =
      (addCount1 context.count0 context.count1 data.length).toNat * 2 ^ 32 +
        (addCount0 context.count0 data.length).toNat := by
    rw [sha1Update]
    simp only
    split_ifs <;> rfl
  have h0 : context.count0.toNat = 8 * m.length % 2 ^ 32 := by rw [A.count0, toNat_count0]
  have hlow : (addCount0 context.count0 data.length).toNat = (8 * m.length + 8 * data.length) % 2 ^ 32 := by
    rw [A.count0, addCount0_eq, toNat_count0, Nat.mul_add]
  have hbits : lenBits data.length = 8 * data.length := by
    rw [lenBits]
    omega
  have hlt := context.count1.toNat_lt
  have hhigh : ∀ c : UInt32, (c + UInt32.ofNat (data.length / 2 ^ 29)).toNat = (c.toNat + data.length / 2 ^ 29) % 2 ^ 32 := by
    intro c
    rw [UInt32.toNat_add, UInt32.toNat_ofNat', Nat.add_mod_mod]
  have hone : (context.count1 + 1).toNat = (context.count1.toNat + 1) % 2 ^ 32 := UInt32.toNat_add _ _
  rw [hcount, addCount1, hhigh, hlow, hbits, Sha1Ctx.count, h0, spuriousCarry]
  generalize data.length = len at *
  generalize m.length = n at *
  split_ifs with hcarry hbig <;> (try rw [hone]) <;> omega

/-- The updates with the pieces of a message. -/
def sha1Updates (context : Sha1Ctx) (pieces : List Bytes) : Sha1Ctx :=
  pieces.foldl (fun context data => (sha1Update context data).1) context

/-- The carries that are too many, of pieces behind `n` bytes. -/
def spuriousCarries : ℕ → List Bytes → ℕ
  | _, [] => 0
  | n, p :: pieces => spuriousCarry n p.length + spuriousCarries (n + p.length) pieces

theorem Absorbed.updates {pieces : List Bytes} (hpieces : ∀ p ∈ pieces, p.length < 2 ^ 61) {m : Bytes}
    {context : Sha1Ctx} (A : Absorbed m context) :
    Absorbed (m ++ pieces.flatten) (sha1Updates context pieces) ∧ (sha1Updates context pieces).count % 2 ^ 64 =
      (context.count + (8 * pieces.flatten.length + 2 ^ 32 * spuriousCarries m.length pieces)) % 2 ^ 64 := by
  induction pieces generalizing m context with
  | nil => exact ⟨by simpa [sha1Updates] using A, by simp [sha1Updates, spuriousCarries]⟩
  | cons p pieces ih =>
    obtain ⟨hA, hcount⟩ := ih (fun q hq => hpieces q (List.mem_cons_of_mem _ hq)) (A.update p)
    have hp := count_update A (hpieces p List.mem_cons_self)
    refine ⟨by simpa [sha1Updates] using hA, hcount.trans ?_⟩
    rw [Nat.add_mod, hp, ← Nat.add_mod, spuriousCarries, List.flatten_cons, List.length_append, List.length_append]
    refine congrArg (· % 2 ^ 64) ?_
    rw [Nat.mul_add, Nat.mul_add]
    omega

/-! ## The digest -/

/-- The place of the count in the last block. -/
theorem padded_iff (n : ℕ) : UInt32.ofNat (8 * n) &&& 504 = 448 ↔ n % 64 = 56 := by
  have hand : 8 * n % 2 ^ 32 &&& 504 = 8 * (n % 64) := by
    have h8 : 8 * n % 2 ^ 32 = (n % 2 ^ 29) <<< 3 := by
      rw [Nat.shiftLeft_eq]
      omega
    rw [h8, show (504 : ℕ) = (2 ^ 6 - 1) <<< 3 from rfl, ← Nat.shiftLeft_and_distrib, Nat.and_two_pow_sub_one_eq_mod,
      Nat.shiftLeft_eq]
    omega
  rw [← UInt32.toNat_inj, UInt32.toNat_and, toNat_count0]
  show 8 * n % 2 ^ 32 &&& 504 = 448 ↔ _
  rw [hand]
  omega

/-- **The loop of `SHA1_Final`** adds the zeros. -/
theorem padLoop_spec {n z : ℕ} (hz : z < n) {m : Bytes} {context : Sha1Ctx} (A : Absorbed m context)
    (hend : (m.length + z) % 64 = 56) (hlt : z < 64) :
    ∃ context', padLoop n context = .ok context' ∧ Absorbed (m ++ List.replicate z 0) context' := by
  induction n generalizing z m context with
  | zero => exact absurd hz (Nat.not_lt_zero z)
  | succ n ih =>
    have hdone : context.count0 &&& 504 = 448 ↔ m.length % 64 = 56 := by rw [A.count0, padded_iff]
    rw [padLoop]
    cases z with
    | zero =>
      rw [if_neg (not_not.2 (hdone.2 hend))]
      exact ⟨context, rfl, by simpa using A⟩
    | succ z =>
      rw [if_pos (mt hdone.1 (by omega))]
      obtain ⟨context', hrun, hA⟩ := @ih z (by omega) _ _ (A.update [0])
        (by rw [List.length_append, List.length_singleton]; omega) (by omega)
      exact ⟨context', hrun, by simpa [List.replicate_succ] using hA⟩

theorem finalcount_eq (context : Sha1Ctx) : finalcount context = be 8 context.count := by
  have h0 := context.count0.toNat_lt
  have h256 : (256 : ℕ) ^ 4 = 2 ^ 32 := by norm_num
  rw [finalcount, show (8 : ℕ) = 4 + 4 from rfl, be_add, Sha1Ctx.count]
  congr 1
  · congr 1
    rw [h256]
    omega
  · refine be_congr ?_
    rw [h256]
    omega

/-- The context that `SHA1_Final` leaves. -/
def wipedCtx : Sha1Ctx := ⟨⟨0, 0, 0, 0, 0⟩, 0, 0, Buffer64.zero⟩

/-- **The digest of a context**: that of the message, and of the number of bits that was counted. -/
theorem sha1Final_eq {m : Bytes} {context : Sha1Ctx} (A : Absorbed m context) :
    sha1Final context = .ok (⟨Sha1.counted m context.count, Sha1.counted_length _ _⟩, wipedCtx) := by
  obtain ⟨context', hpad, hA⟩ := @padLoop_spec padRounds (Sha1.zeros m.length)
    (Nat.mod_lt _ (by decide)) _ _ (A.update [0x80])
    (by rw [List.length_append, List.length_singleton, Sha1.zeros]; omega) (Nat.mod_lt _ (by decide))
  have hstate := (hA.update (finalcount context)).state
  have hmessage : m ++ [0x80] ++ List.replicate (Sha1.zeros m.length) 0 ++ finalcount context =
      m ++ Sha1.padding m.length context.count := by
    rw [finalcount_eq, Sha1.padding]
    simp
  rw [hmessage] at hstate
  have hdigest : digestOf (sha1Update context' (finalcount context)).1.state =
      ⟨Sha1.counted m context.count, Sha1.counted_length _ _⟩ := by
    rw [hstate]
    rfl
  rw [sha1Final, hpad]
  show Except.ok _ = _
  rw [hdigest]
  rfl

/-- **The digest of a message in pieces**: it is the SHA-1 of the pieces one after another, except that the length that
it ends with is larger by `2 ^ 32` for each piece of at least `2 ^ 29` bytes whose carry was counted for nothing. -/
theorem sha1Final_pieces (context : Sha1Ctx) {pieces : List Bytes} (hpieces : ∀ p ∈ pieces, p.length < 2 ^ 61) :
    sha1Final (sha1Updates (sha1Init context) pieces) =
      .ok (⟨Sha1.counted pieces.flatten (8 * pieces.flatten.length + 2 ^ 32 * spuriousCarries 0 pieces),
        Sha1.counted_length _ _⟩, wipedCtx) := by
  obtain ⟨hA, hcount⟩ := (Absorbed.init context).updates hpieces
  rw [sha1Final_eq hA]
  congr 3
  rw [List.nil_append]
  refine Sha1.counted_congr (hcount.trans ?_)
  rw [count_init, Nat.zero_add, List.length_nil]

theorem spuriousCarries_eq_zero {pieces : List Bytes} (h : ∀ p ∈ pieces, p.length < 2 ^ 29) (n : ℕ) :
    spuriousCarries n pieces = 0 := by
  induction pieces generalizing n with
  | nil => rfl
  | cons p pieces ih =>
    have hp := h p List.mem_cons_self
    rw [spuriousCarries, ih (fun q hq => h q (List.mem_cons_of_mem _ hq)), spuriousCarry, if_neg (by omega)]

/-- **`SHA1_Init`, `SHA1_Update` and `SHA1_Final` compute SHA-1**, however the message is cut into pieces of less than
`2 ^ 29` bytes. -/
theorem sha1Final_digest (context : Sha1Ctx) {pieces : List Bytes} (hpieces : ∀ p ∈ pieces, p.length < 2 ^ 29) :
    sha1Final (sha1Updates (sha1Init context) pieces) =
      .ok (⟨Sha1.digest pieces.flatten, Sha1.digest_length _⟩, wipedCtx) := by
  have hlt : ∀ p ∈ pieces, p.length < 2 ^ 61 := fun p hp => (hpieces p hp).trans (by norm_num)
  simp only [sha1Final_pieces context hlt, spuriousCarries_eq_zero hpieces, Nat.mul_zero, Nat.add_zero, Sha1.digest]

/-- **The hash of a message in pieces.** It is that of the pieces one after another, with a length that is too large by
`2 ^ 32` for each piece of at least `2 ^ 29` bytes whose carry is counted for nothing. If all are shorter, it is
SHA-1. -/
theorem sha1_of_pieces (context : Sha1Ctx) {pieces : List Bytes} (hpieces : ∀ p ∈ pieces, p.length < 2 ^ 61) :
    ∃ digest, sha1Final (sha1Updates (sha1Init context) pieces) = .ok (digest, wipedCtx) ∧
      digest.val =
        Sha1.counted pieces.flatten (8 * pieces.flatten.length + 2 ^ 32 * spuriousCarries 0 pieces) ∧
      ((∀ p ∈ pieces, p.length < 2 ^ 29) → digest.val = Sha1.digest pieces.flatten) := by
  refine ⟨_, sha1Final_pieces context hpieces, rfl, fun hsmall => ?_⟩
  rw [spuriousCarries_eq_zero hsmall, Nat.mul_zero, Nat.add_zero, Sha1.digest]

/-- The letters `a`, `b` and `c` in short pieces, and with a piece between them that is long enough for a carry to be
counted for nothing. -/
theorem sha1_of_abc : (∃ digest : Digest,
    sha1Final (sha1Updates (sha1Init wipedCtx) [[97, 98], [], [99]]) = .ok (digest, wipedCtx) ∧
      digest.val = Sha1.digest [97, 98, 99]) ∧
    ∃ digest : Digest,
      sha1Final (sha1Updates (sha1Init wipedCtx) [[97, 98], List.replicate (2 ^ 29) 0, [99]]) = .ok (digest, wipedCtx) ∧
        digest.val = Sha1.counted ([97, 98] ++ List.replicate (2 ^ 29) 0 ++ [99]) (8 * (2 ^ 29 + 3) + 2 ^ 32) := by
  constructor
  · obtain ⟨digest, hfinal, -, hsha⟩ := @sha1_of_pieces wipedCtx [[97, 98], [], [99]] (by simp)
    exact ⟨digest, hfinal, hsha (by simp)⟩
  · obtain ⟨zeros, hzeros, hlong⟩ : ∃ zeros : Bytes, zeros = List.replicate (2 ^ 29) 0 ∧ zeros.length = 2 ^ 29 :=
      ⟨_, rfl, List.length_replicate⟩
    rw [← hzeros]
    obtain ⟨digest, hfinal, hcounted, -⟩ := @sha1_of_pieces wipedCtx [[97, 98], zeros, [99]] (by simp [hlong])
    have hcarries : spuriousCarries 0 [[97, 98], zeros, [99]] = 1 := by simp [spuriousCarries, spuriousCarry, hlong]
    have hflat : [[97, 98], zeros, [99]].flatten = [97, 98] ++ zeros ++ [99] := by simp
    have hlen : ([97, 98] ++ zeros ++ [99] : Bytes).length = 2 ^ 29 + 3 := by simp [hlong]
    rw [hcarries, hflat, hlen, Nat.mul_one] at hcounted
    exact ⟨digest, hfinal, hcounted⟩

end Sfmf

import Sfmf.Proof.Codec

/-!
# The conversion loops on zlib's streams

The loops of `convert.c` nest a reader of blocks with a stream of zlib. With the
contract of zlib they are followed to their end on every byte string: the history
of the stream is what the loop has read and what the sink has got.

* `deflateInput_settles`, `deflateFinish_settles`, `converted_zcompress`:
  compressing ends, with a complete stream of the input.
* `inflateInput_outcome`, `zdecompressLoop_outcome`: decompressing ends with the
  content of the stream, ends in a failed assertion, or does not end.
-/

namespace Sfmf

/-- The environment with another budget for the loops. -/
def Env.withFuel (E : Env) (k : ℕ) : Env := { E with fuel := k }

/-- The sink of SHA-1 with what it has got. -/
def collected (g : Bytes) : Writer Bytes := ⟨sha1ConvertContextWrite, g, g.length⟩

theorem convertIoWrite_collected (g b : Bytes) :
    convertIoWrite (collected g) b = (b.length, collected (g ++ b)) := by
  simp [convertIoWrite, collected, sha1ConvertContextWrite]

/-- A file that is read from its rest `d` on, after `u` bytes. -/
def fileReader (d : Bytes) (u : ℕ) : Reader Bytes := ⟨fileConvertContextRead, d, u⟩

theorem defaultBufferSize_pos : 0 < defaultBufferSize := by simp [defaultBufferSize]

theorem length_drop_block {d : Bytes} {n : ℕ} (hd : d.take defaultBufferSize ≠ []) (h : d.length < n + 1) :
    (d.drop defaultBufferSize).length < n := by
  have hpos := List.length_pos_iff.2 fun h => hd (take_block_eq_nil.2 h)
  have := defaultBufferSize_pos
  rw [List.length_drop]
  omega

variable (E : Env)

/-! ## Compression -/

/-- One round of the loop that feeds `deflate`. -/
theorem deflateInput_round {s : E.zlib.Deflate} {x : Bytes} {z : ZStep E.zlib.Deflate}
    (hz : E.zlib.deflate s x defaultBufferSize .noFlush = z) (g : Bytes) (n : ℕ) :
    deflateInput E (n + 1) s x (collected g) =
      if z.ret = .ok then
        if x.drop z.consumed = [] then .ok (z.state, collected (g ++ z.out))
        else deflateInput E n z.state (x.drop z.consumed) (collected (g ++ z.out))
      else .error (.assertion "res == Z_OK") := by
  simp only [deflateInput, hz, convertIoWrite_collected]
  by_cases hret : z.ret = .ok <;> simp [cAssert, hret]

/-- One round of the loop that finishes `deflate`. -/
theorem deflateFinish_round {s : E.zlib.Deflate} {z : ZStep E.zlib.Deflate}
    (hz : E.zlib.deflate s [] defaultBufferSize .finish = z) (g : Bytes) (n : ℕ) :
    deflateFinish E (n + 1) s (collected g) =
      if z.ret = .streamEnd then .ok (collected (g ++ z.out))
      else if z.ret = .ok then deflateFinish E n z.state (collected (g ++ z.out))
      else .error (.assertion "res == Z_OK || res == Z_STREAM_END") := by
  simp only [deflateFinish, hz, convertIoWrite_collected]
  by_cases hend : z.ret = .streamEnd
  · simp [cAssert, hend]
  · by_cases hret : z.ret = .ok <;> simp [cAssert, hret, hend]

variable {ω : Type}

theorem deflateInput_withFuel (k n : ℕ) (s : E.zlib.Deflate) (x : Bytes) (w : Writer ω) :
    deflateInput (E.withFuel k) n s x w = deflateInput E n s x w := by
  induction n generalizing s x w with
  | zero => rfl
  | succ n ih => simp only [deflateInput, ← ih]; rfl

theorem deflateFinish_withFuel (k n : ℕ) (s : E.zlib.Deflate) (w : Writer ω) :
    deflateFinish (E.withFuel k) n s w = deflateFinish E n s w := by
  induction n generalizing s w with
  | zero => rfl
  | succ n ih => simp only [deflateFinish, ← ih]; rfl

/-- One round of `do_convert_zcompressed` with a budget. -/
theorem zcompressedLoop_round (k n : ℕ) (s : E.zlib.Deflate) (d g : Bytes) (u : ℕ) :
    zcompressedLoop (E.withFuel k) (n + 1) s (fileReader d u) (collected g) =
      if d.take defaultBufferSize = [] then
        deflateFinish E k s (collected g) >>= fun w =>
          .ok (fileReader (d.drop defaultBufferSize) (u + (d.take defaultBufferSize).length), w)
      else
        deflateInput E k s (d.take defaultBufferSize) (collected g) >>= fun p =>
          zcompressedLoop (E.withFuel k) n p.1
            (fileReader (d.drop defaultBufferSize) (u + (d.take defaultBufferSize).length)) p.2 := by
  by_cases hd : d.take defaultBufferSize = []
  · simp only [zcompressedLoop, fileReader, convertIoRead_file, hd, if_true, ← deflateFinish_withFuel E k]
    rfl
  · simp only [zcompressedLoop, fileReader, convertIoRead_file, hd, if_false, ← deflateInput_withFuel E k]
    rfl
variable {E} {F : StreamFormat} {stream : Bytes → Bytes → Prop}

/-- **`deflate` takes a block**: each round takes some of the input or gives some of the output that
the input allows. -/
theorem deflateInput_settles (hZ : E.zlib.DeflateContract stream) {s : E.zlib.Deflate} {t g x : Bytes}
    (hs : E.zlib.Deflating false s t g) (hx : x ≠ []) :
    ∃ s' g', E.zlib.Deflating false s' (t ++ x) g' ∧
      Exec.Settles (fun k => deflateInput E k s x (collected g)) (.ok (s', collected g')) := by
  obtain ⟨bound, hbound⟩ := hZ.bounded
  -- by the length of the input, and for the same input by the output that may still come
  induction hl : x.length using Nat.strong_induction_on generalizing s t g x with
  | _ l ihl =>
  induction hm : bound t - g.length using Nat.strong_induction_on generalizing s g with
  | _ m ihm =>
  obtain ⟨hret, hprog⟩ := hZ.feed hs defaultBufferSize_pos hx
  have hnext := hs.feed x defaultBufferSize hx defaultBufferSize_pos hret
  have hround := deflateInput_round E (s := s) (x := x) rfl g
  generalize E.zlib.deflate s x defaultBufferSize .noFlush = z at *
  simp only [hret, if_true] at hround
  by_cases hdrop : x.drop z.consumed = []
  · simp only [hdrop, if_true] at hround
    rw [List.take_of_length_le (List.drop_eq_nil_iff.1 hdrop)] at hnext
    exact ⟨_, _, hnext, .round hround (.of_eq fun _ => rfl)⟩
  simp only [hdrop, if_false] at hround
  suffices h : ∃ s' g', E.zlib.Deflating false s' (t ++ x) g' ∧ Exec.Settles
      (fun k => deflateInput E k z.state (x.drop z.consumed) (collected (g ++ z.out)))
      (.ok (s', collected g')) by
    obtain ⟨s', g', hs', hrun⟩ := h
    exact ⟨s', g', hs', .round hround hrun⟩
  by_cases hc : z.consumed = 0
  · simp only [hc, List.take_zero, List.append_nil, List.drop_zero] at hnext ⊢
    have hout := List.length_pos_iff.2 (hprog.resolve_left (by omega))
    have hle := hbound hnext
    rw [List.length_append] at hle
    exact ihm _ (by rw [← hm, List.length_append]; omega) hnext rfl
  · have hpos := List.length_pos_iff.2 hx
    have hlen : (x.drop z.consumed).length < l := by rw [List.length_drop]; omega
    obtain ⟨s', g', hs', hrun⟩ := ihl _ hlen hnext hdrop rfl
    rw [List.append_assoc, List.take_append_drop] at hs'
    exact ⟨s', g', hs', hrun⟩

/-- **The stream is read to its end.** -/
theorem deflateFinish_settles (hZ : E.zlib.DeflateContract stream) {fin : Bool} {s : E.zlib.Deflate} {t g : Bytes}
    (hs : E.zlib.Deflating fin s t g) :
    ∃ z, stream t z ∧ Exec.Settles (fun k => deflateFinish E k s (collected g)) (.ok (collected z)) := by
  -- each round but the last gives some output, of which there is a bound
  obtain ⟨bound, hbound⟩ := hZ.bounded
  induction hm : bound t - g.length using Nat.strong_induction_on generalizing fin s g with
  | _ m ihm =>
  have hfinish := hZ.finish hs defaultBufferSize_pos
  have hnext := hs.finish defaultBufferSize defaultBufferSize_pos
  have hround := deflateFinish_round E (s := s) rfl g
  generalize E.zlib.deflate s [] defaultBufferSize .finish = z at *
  rcases hfinish with ⟨hret, hout⟩ | ⟨hret, hdecode⟩
  · simp only [hret, reduceCtorEq, if_true, if_false] at hround
    have hout := List.length_pos_iff.2 hout
    have hle := hbound (hnext hret)
    rw [List.length_append] at hle
    obtain ⟨z', hz', hrun⟩ := ihm _ (by rw [← hm, List.length_append]; omega) (hnext hret) rfl
    exact ⟨z', hz', .round hround hrun⟩
  · simp only [hret, if_true] at hround
    exact ⟨_, hdecode, .round hround (.of_eq fun _ => rfl)⟩

/-- **Compressing ends**, with a complete stream of all that was read. -/
theorem zcompressedLoop_settles (hZ : E.zlib.DeflateContract stream) : ∀ (n : ℕ) {s : E.zlib.Deflate} {t g d : Bytes}
    {u : ℕ}, d.length < n → E.zlib.Deflating false s t g → ∃ z r, stream (t ++ d) z ∧
      Exec.Settles (fun k => zcompressedLoop (E.withFuel k) n s (fileReader d u) (collected g))
        (.ok (r, collected z)) := by
  intro n
  induction n with
  | zero => intro s t g d u hlen _; omega
  | succ n ih =>
    intro s t g d u hlen hs
    have hround := fun k => zcompressedLoop_round E k n s d g u
    by_cases hd : d.take defaultBufferSize = []
    · simp only [hd, if_true] at hround
      obtain ⟨z, hz, hrun⟩ := deflateFinish_settles hZ hs
      obtain rfl := take_block_eq_nil.1 hd
      exact ⟨z, _, by rw [List.append_nil]; exact hz, .congr hround (hrun.bind (.of_eq fun _ => rfl))⟩
    · simp only [hd, if_false] at hround
      obtain ⟨s', g', hs', hrun⟩ := deflateInput_settles hZ hs hd
      obtain ⟨z, r, hz, hrest⟩ := ih (length_drop_block hd hlen) hs'
      rw [List.append_assoc, List.take_append_drop] at hz
      exact ⟨z, r, hz, .congr hround (hrun.bind hrest)⟩

/-- **What compression puts out** is a complete stream of the input. -/
theorem converted_zcompress (hZ : E.zlib.DeflateContract stream) (d : Bytes) :
    ∃ z, stream d z ∧ Exec.Settles (fun k => converted (E.withFuel k) .zcompress d) (.ok z) := by
  obtain ⟨z, r, hz, hrun⟩ := zcompressedLoop_settles hZ (d.length + 1) (Nat.lt_succ_self _) .init
  exact ⟨z, hz, hrun.bind (.of_eq fun _ => rfl)⟩

/-! ## Decompression -/

variable (E)

/-- One round of the loop that feeds `inflate`. -/
theorem inflateInput_round {s : E.zlib.Inflate} {x : Bytes} {z : ZStep E.zlib.Inflate}
    (hz : E.zlib.inflate s x defaultBufferSize .noFlush = z) (g : Bytes) (n : ℕ) :
    inflateInput E (n + 1) s x (collected g) =
      if z.ret = .ok ∨ z.ret = .streamEnd then
        if x.drop z.consumed = [] then .ok (z.state, collected (g ++ z.out))
        else inflateInput E n z.state (x.drop z.consumed) (collected (g ++ z.out))
      else .error (.assertion "res == Z_OK || res == Z_STREAM_END") := by
  simp only [inflateInput, hz, convertIoWrite_collected]
  by_cases hret : z.ret = .ok ∨ z.ret = .streamEnd <;> simp [cAssert, hret]

/-- One round of the loop that finishes `inflate`. -/
theorem inflateFinish_round {s : E.zlib.Inflate} {z : ZStep E.zlib.Inflate}
    (hz : E.zlib.inflate s [] defaultBufferSize .finish = z) (g : Bytes) (n : ℕ) :
    inflateFinish E (n + 1) s (collected g) =
      if z.ret = .streamEnd then .ok (collected (g ++ z.out))
      else if z.ret = .ok then inflateFinish E n z.state (collected (g ++ z.out))
      else .error (.assertion "res == Z_OK || res == Z_STREAM_END") := by
  simp only [inflateFinish, hz, convertIoWrite_collected]
  by_cases hend : z.ret = .streamEnd
  · simp [cAssert, hend]
  · by_cases hret : z.ret = .ok <;> simp [cAssert, hret, hend]

theorem inflateInput_withFuel (k n : ℕ) (s : E.zlib.Inflate) (x : Bytes) (w : Writer ω) :
    inflateInput (E.withFuel k) n s x w = inflateInput E n s x w := by
  induction n generalizing s x w with
  | zero => rfl
  | succ n ih => simp only [inflateInput, ← ih]; rfl

theorem inflateFinish_withFuel (k n : ℕ) (s : E.zlib.Inflate) (w : Writer ω) :
    inflateFinish (E.withFuel k) n s w = inflateFinish E n s w := by
  induction n generalizing s w with
  | zero => rfl
  | succ n ih => simp only [inflateFinish, ← ih]; rfl

/-- One round of `do_convert_zdecompress` with a budget. -/
theorem zdecompressLoop_round (k n : ℕ) (s : E.zlib.Inflate) (d g : Bytes) (u : ℕ) :
    zdecompressLoop (E.withFuel k) (n + 1) s (fileReader d u) (collected g) =
      if d.take defaultBufferSize = [] then
        inflateFinish E k s (collected g) >>= fun w =>
          .ok (fileReader (d.drop defaultBufferSize) (u + (d.take defaultBufferSize).length), w)
      else
        inflateInput E k s (d.take defaultBufferSize) (collected g) >>= fun p =>
          zdecompressLoop (E.withFuel k) n p.1
            (fileReader (d.drop defaultBufferSize) (u + (d.take defaultBufferSize).length)) p.2 := by
  by_cases hd : d.take defaultBufferSize = []
  · simp only [zdecompressLoop, fileReader, convertIoRead_file, hd, if_true, ← inflateFinish_withFuel E k]
    rfl
  · simp only [zdecompressLoop, fileReader, convertIoRead_file, hd, if_false, ← inflateInput_withFuel E k]
    rfl

variable {E}

/-- After the end of the stream, `inflate` takes nothing of what is left, and the loop goes on. -/
theorem inflateInput_spins (hZ : E.zlib.InflateContract F) {s : E.zlib.Inflate} {t g x : Bytes}
    (hs : E.zlib.Inflating s t g) (ht : F.Complete t) (hx : x ≠ []) :
    ∀ n, inflateInput E n s x (collected g) = .error .spin := by
  intro n
  induction n generalizing s with
  | zero => rfl
  | succ n ih =>
    have hround := inflateInput_round E (s := s) (x := x) rfl g n
    -- `inflate` returns `Z_STREAM_END` and takes nothing, so the round leads to itself
    obtain ⟨hc, hout⟩ := hZ.after x .noFlush hs defaultBufferSize_pos ht
    have hend := hZ.ends x .noFlush hs defaultBufferSize_pos
    have hnext := hs.call x defaultBufferSize .noFlush defaultBufferSize_pos
    generalize E.zlib.inflate s x defaultBufferSize .noFlush = z at *
    simp only [hc, hout, List.take_zero, List.append_nil, List.drop_zero, hx, if_false] at hround hend hnext
    have hret := hend.2 ht
    simp only [hret, or_true, if_true] at hround
    rw [hround]
    exact ih (hnext (.inr hret))

/-- What `inflate` makes of a block, when the stream has then got `y`: it takes the block, refuses it,
or comes to the end of the stream within it and takes no more. -/
inductive BlockOutcome (E : Env) (F : StreamFormat) (y : Bytes)
    (run : ℕ → Exec (E.zlib.Inflate × Writer Bytes)) : Prop
  | taken {s : E.zlib.Inflate} {g : Bytes} (h : E.zlib.Inflating s y g)
      (hrun : Exec.Settles run (.ok (s, collected g)))
  | refused (h : ¬ F.Compatible y)
      (hrun : Exec.Settles run (.error (.assertion "res == Z_OK || res == Z_STREAM_END")))
  | stuck (h : F.Trailing y) (hrun : Exec.Settles run (.error .spin))

theorem BlockOutcome.round {y : Bytes} {run run' : ℕ → Exec (E.zlib.Inflate × Writer Bytes)}
    (h : ∀ k, run (k + 1) = run' k) : BlockOutcome E F y run' → BlockOutcome E F y run
  | .taken hs hrun => .taken hs (.round h hrun)
  | .refused hy hrun => .refused hy (.round h hrun)
  | .stuck hy hrun => .stuck hy (.round h hrun)

/-- **What `inflate` makes of a block**: before the end of the stream, each round takes some of the
input or gives some of the output that the input allows. -/
theorem inflateInput_outcome (hZ : E.zlib.InflateContract F) {s : E.zlib.Inflate} {t g x : Bytes}
    (hs : E.zlib.Inflating s t g) (hx : x ≠ []) :
    BlockOutcome E F (t ++ x) fun k => inflateInput E k s x (collected g) := by
  obtain ⟨bound, hbound⟩ := hZ.bounded
  -- by the length of the input, and for the same input by the output that may still come
  induction hl : x.length using Nat.strong_induction_on generalizing s t g x with
  | _ l ihl =>
  induction hm : bound t - g.length using Nat.strong_induction_on generalizing s g with
  | _ m ihm =>
  by_cases ht : F.Complete t
  · exact .stuck ⟨t, ht, List.prefix_append t x, by simpa using hx⟩ (.of_eq (inflateInput_spins hZ hs ht hx))
  have hround := inflateInput_round E (s := s) (x := x) rfl g
  have hvalid := hZ.valid hs defaultBufferSize_pos hx
  have hprog := hZ.progress x .noFlush hs defaultBufferSize_pos ht
  have hend := hZ.ends x .noFlush hs defaultBufferSize_pos
  have hnext := hs.call x defaultBufferSize .noFlush defaultBufferSize_pos
  generalize E.zlib.inflate s x defaultBufferSize .noFlush = z at *
  by_cases hret : z.ret = .ok ∨ z.ret = .streamEnd
  case neg =>
    simp only [hret, if_false] at hround
    exact .refused (mt hvalid hret) (.round hround (.of_eq fun _ => rfl))
  replace hnext := hnext hret
  simp only [hret, if_true] at hround
  by_cases hdrop : x.drop z.consumed = []
  · simp only [hdrop, if_true] at hround
    rw [List.take_of_length_le (List.drop_eq_nil_iff.1 hdrop)] at hnext
    exact .taken hnext (.round hround (.of_eq fun _ => rfl))
  simp only [hdrop, if_false] at hround
  refine .round hround ?_
  by_cases hc : z.consumed = 0
  · simp only [hc, List.take_zero, List.append_nil, List.drop_zero] at hnext hend ⊢
    have hok := hret.resolve_right (mt hend.1 ht)
    have hout := List.length_pos_iff.2 ((hprog hok).resolve_left (by omega))
    have hle := hbound hnext
    rw [List.length_append] at hle
    exact ihm _ (by rw [← hm, List.length_append]; omega) hnext rfl
  · have hpos := List.length_pos_iff.2 hx
    have hlen : (x.drop z.consumed).length < l := by rw [List.length_drop]; omega
    have hrest := ihl _ hlen hnext hdrop rfl
    rwa [List.append_assoc, List.take_append_drop] at hrest

/-- After the end of the stream its content has been given. -/
theorem inflateFinish_complete (hZ : E.zlib.InflateContract F) {s : E.zlib.Inflate} {t g d : Bytes}
    (hs : E.zlib.Inflating s t g) (ht : F.decode t = some d) :
    Exec.Settles (fun k => inflateFinish E k s (collected g)) (.ok (collected d)) := by
  have hround := inflateFinish_round E (s := s) rfl g
  have hout := (hZ.after [] .finish hs defaultBufferSize_pos (.of_decode ht)).2
  have hend := hZ.ends [] .finish hs defaultBufferSize_pos
  generalize E.zlib.inflate s [] defaultBufferSize .finish = z at *
  rw [List.take_nil, List.append_nil] at hend
  simp only [hend.2 (.of_decode ht), if_true, hout, List.append_nil] at hround
  rw [← hZ.whole hs ht]
  exact .round hround (.of_eq fun _ => rfl)

/-- Before the end of the stream there is nothing to finish. -/
theorem inflateFinish_incomplete (hZ : E.zlib.InflateContract F) {s : E.zlib.Inflate} {t g : Bytes}
    (hs : E.zlib.Inflating s t g) (ht : ¬ F.Complete t) :
    Exec.Settles (fun k => inflateFinish E k s (collected g))
      (.error (.assertion "res == Z_OK || res == Z_STREAM_END")) := by
  -- by the output that may still come: with no input each round gives some, or fails
  obtain ⟨bound, hbound⟩ := hZ.bounded
  induction hm : bound t - g.length using Nat.strong_induction_on generalizing s g with
  | _ m ihm =>
  have hround := inflateFinish_round E (s := s) rfl g
  have hfits := hZ.fits [] .finish hs defaultBufferSize_pos
  have hprog := hZ.progress [] .finish hs defaultBufferSize_pos ht
  have hend := hZ.ends [] .finish hs defaultBufferSize_pos
  have hnext := hs.call [] defaultBufferSize .finish defaultBufferSize_pos
  generalize E.zlib.inflate s [] defaultBufferSize .finish = z at *
  rw [List.take_nil, List.append_nil] at hend hnext
  simp only [mt hend.1 ht, if_false] at hround
  by_cases hret : z.ret = .ok
  · simp only [hret, if_true] at hround
    have hout := List.length_pos_iff.2 ((hprog hret).resolve_left (by simpa using hfits))
    have hle := hbound (hnext (.inl hret))
    rw [List.length_append] at hle
    exact .round hround (ihm _ (by rw [← hm, List.length_append]; omega) (hnext (.inl hret)) rfl)
  · simp only [hret, if_false] at hround
    exact .round hround (.of_eq fun _ => rfl)

/-- What decompression makes of the bytes `y`: it gives the content of the stream that they are; it
refuses them, if they do not even start with a stream; and it does not end, if bytes follow on a stream. -/
inductive Outcome (F : StreamFormat) (y : Bytes) (run : ℕ → Exec (Reader Bytes × Writer Bytes)) : Prop
  | content {d : Bytes} {r : Reader Bytes} (h : F.decode y = some d)
      (hrun : Exec.Settles run (.ok (r, collected d)))
  | refused (h : ∀ z, F.Complete z → ¬ z <+: y)
      (hrun : Exec.Settles run (.error (.assertion "res == Z_OK || res == Z_STREAM_END")))
  | stuck (h : F.Trailing y) (hrun : Exec.Settles run (.error .spin))

/-- **What decompression makes of a file.** -/
theorem zdecompressLoop_outcome (hZ : E.zlib.InflateContract F) : ∀ (n : ℕ) {s : E.zlib.Inflate} {t g d : Bytes}
    {u : ℕ}, d.length < n → E.zlib.Inflating s t g →
    Outcome F (t ++ d) fun k => zdecompressLoop (E.withFuel k) n s (fileReader d u) (collected g) := by
  intro n
  induction n with
  | zero => intro s t g d u hlen _; omega
  | succ n ih =>
    intro s t g d u hlen hs
    have hround := fun k => zdecompressLoop_round E k n s d g u
    by_cases hd : d.take defaultBufferSize = []
    · simp only [hd, if_true] at hround
      obtain rfl := take_block_eq_nil.1 hd
      rw [List.append_nil]
      by_cases ht : F.Complete t
      · obtain ⟨d, hd⟩ := ht.decode
        exact .content hd (.congr hround ((inflateFinish_complete hZ hs hd).bind (.of_eq fun _ => rfl)))
      · refine .refused (fun z hz hzt => ?_) (.congr hround (inflateFinish_incomplete hZ hs ht).bind_error)
        rw [hZ.stops hs hz hzt] at hz
        exact ht hz
    · simp only [hd, if_false] at hround
      have hblock : t ++ d.take defaultBufferSize <+: t ++ d := (List.prefix_append_right_inj t).2 (List.take_prefix _ d)
      -- the rest of the file matters only where the block was taken
      cases inflateInput_outcome hZ hs hd with
      | taken hs' hrun =>
        have hrest := ih (u := u + (d.take defaultBufferSize).length) (length_drop_block hd hlen) hs'
        rw [List.append_assoc, List.take_append_drop] at hrest
        cases hrest with
        | content h hrest => exact .content h (.congr hround (hrun.bind hrest))
        | refused h hrest => exact .refused h (.congr hround (hrun.bind hrest))
        | stuck h hrest => exact .stuck h (.congr hround (hrun.bind hrest))
      | refused h hrun =>
        exact .refused (fun z hz hzy => h ⟨z, hz, List.prefix_or_prefix_of_prefix hblock hzy⟩)
          (.congr hround hrun.bind_error)
      | stuck h hrun =>
        exact .stuck (h.mono hblock) (.congr hround hrun.bind_error)

/-- A complete stream is decompressed to its content. -/
theorem converted_zuncompress (hZ : E.zlib.InflateContract F) {z d : Bytes} (hz : F.decode z = some d) :
    Exec.Settles (fun k => converted (E.withFuel k) .zuncompress z) (.ok d) := by
  cases zdecompressLoop_outcome hZ (z.length + 1) (u := 0) (Nat.lt_succ_self _) .init with
  | content h hrun =>
    rw [List.nil_append, hz] at h
    cases h
    exact hrun.bind (.of_eq fun _ => rfl)
  | refused h hrun => exact absurd (List.prefix_refl _) (h z (.of_decode hz))
  | stuck h hrun => exact absurd h (StreamFormat.Complete.not_trailing (.of_decode hz))

/-! ## The conversions compose -/

theorem convertBufferFp_ok {buf b : Bytes} {flags : ConvertFlags} (h : converted E flags buf = .ok b) :
    ∃ f, convertBufferFp E buf .fopen flags = .ok f ∧ f.fclose = b := by
  have hrel := convertBufferFp_rel E buf .fopen flags
  rw [h] at hrel
  obtain ⟨f, hf, happ⟩ := hrel.ok_right
  exact ⟨f, hf, happ.fclose⟩

theorem convertFileHash_ok {d b : Bytes} {flags : ConvertFlags} (h : converted E flags d = .ok b) :
    convertFileHash E d flags = .ok ⟨UInt32.ofNat b.length, hashtypeSha1, E.sha1 b⟩ := by
  rw [convertFileHash_eq, h, ok_map]

/-- **The conversions compose to the identity.** With every large enough budget a plain copy of a buffer
writes the buffer, its compressed copy is written to the end, and the hash of the decompressed copy is
the hash of the buffer. -/
theorem conversions_compose (E : Env) {F : StreamFormat} (hdeflate : E.zlib.DeflateContract F.StreamOf)
    (hinflate : E.zlib.InflateContract F) (d : Bytes) :
    ∃ z, ∀ᶠ k in Filter.atTop,
      (∃ f, convertBufferFp (E.withFuel k) d .fopen .none = .ok f ∧ f.fclose = d) ∧
      (∃ f, convertBufferFp (E.withFuel k) d .fopen .zcompress = .ok f ∧ f.fclose = z) ∧
      convertFileHash (E.withFuel k) d .none = .ok ⟨UInt32.ofNat d.length, hashtypeSha1, E.sha1 d⟩ ∧
      convertFileHash (E.withFuel k) z .zuncompress = .ok ⟨UInt32.ofNat d.length, hashtypeSha1, E.sha1 d⟩ := by
  obtain ⟨z, hz, hcompress⟩ := converted_zcompress hdeflate d
  have huncompress := converted_zuncompress hinflate hz
  refine ⟨z, ?_⟩
  filter_upwards [hcompress, huncompress] with k hcompress huncompress
  have hnone := converted_none (E.withFuel k) d
  exact ⟨convertBufferFp_ok hnone, convertBufferFp_ok hcompress, convertFileHash_ok hnone,
    convertFileHash_ok huncompress⟩

/-- The letters are one of the byte strings. -/
theorem conversions_compose_letters :
    ∃ z, ∀ᶠ k in Filter.atTop,
      (∃ f, convertBufferFp (coderEnv.withFuel k) letters .fopen .none = .ok f ∧ f.fclose = letters) ∧
      (∃ f, convertBufferFp (coderEnv.withFuel k) letters .fopen .zcompress = .ok f ∧ f.fclose = z) ∧
      convertFileHash (coderEnv.withFuel k) letters .none = .ok ⟨32, hashtypeSha1, lettersDigest⟩ ∧
      convertFileHash (coderEnv.withFuel k) z .zuncompress = .ok ⟨32, hashtypeSha1, lettersDigest⟩ :=
  conversions_compose coderEnv coderEnv_deflate coderEnv_inflate letters

/-! ## Where decompression ends -/

theorem zdecompress_collected_ends_iff {E : Env} (hZ : E.zlib.InflateContract F) (d : Bytes) :
    Exec.Ends (fun k => doConvertZdecompress (E.withFuel k) (fileReader d 0) (collected [])) ↔ ¬ F.Trailing d := by
  have hout := zdecompressLoop_outcome hZ (d.length + 1) (d := d) (u := 0) (Nat.lt_succ_self _) .init
  rw [List.nil_append] at hout
  cases hout with
  | content h hrun =>
    exact iff_of_true (Exec.Settles.ends hrun (by simp)) (StreamFormat.Complete.not_trailing (.of_decode h))
  | refused h hrun =>
    refine iff_of_true (Exec.Settles.ends hrun (by simp)) ?_
    rintro ⟨z, hz, hzd, _⟩
    exact h z hz hzd
  | stuck h hrun => exact iff_of_false (Exec.Settles.not_ends hrun) (not_not_intro h)

/-- A sink that takes all it is given, and the sink of SHA-1. -/
structure TakesAll (T : Sink ω) (w : Writer ω) (w' : Writer Bytes) : Prop where
  left : w.transfer = T
  right : w'.transfer = sha1ConvertContextWrite

theorem takesAll_sim {T : Sink ω} (hT : ∀ u b, (T.write u b).1 = b.length) : WriteSim (TakesAll T) where
  left := by rintro ⟨_, u, t⟩ ⟨_, u', t'⟩ ⟨rfl, rfl⟩ b; exact hT u b
  right := by rintro ⟨_, u, t⟩ ⟨_, u', t'⟩ ⟨rfl, rfl⟩ b; rfl
  next := by rintro ⟨_, u, t⟩ ⟨_, u', t'⟩ ⟨rfl, rfl⟩ b; exact ⟨rfl, rfl⟩

/-- Whatever takes the output, decompression ends on the same sources. -/
theorem zdecompress_ends_congr {σ : Type} {Q : Reader σ → Reader Bytes → Prop} (hQ : ReadSim Q) {r : Reader σ}
    {d : Bytes} (hr : Q r (fileReader d 0)) {T : Sink ω} (hT : ∀ u b, (T.write u b).1 = b.length) (E : Env) (u : ω) :
    Exec.Ends (fun k => doConvertZdecompress (E.withFuel k) r ⟨T, u, 0⟩) ↔
      Exec.Ends (fun k => doConvertZdecompress (E.withFuel k) (fileReader d 0) (collected [])) :=
  Exec.Ends.congr fun k => (runConversion_sim hQ (takesAll_sim hT) (E.withFuel k) hr ⟨rfl, rfl⟩ .zuncompress).spin

/-- **Decompression ends unless bytes follow on a complete stream**, from a file and from a buffer, and
whatever takes the output. -/
theorem zdecompress_ends_iff (E : Env) {F : StreamFormat} (hZ : E.zlib.InflateContract F) {T : Sink ω}
    (hT : ∀ u b, (T.write u b).1 = b.length) (u : ω) (d : Bytes) :
    (Exec.Ends (fun k => doConvertZdecompress (E.withFuel k) ⟨fileConvertContextRead, d, 0⟩ ⟨T, u, 0⟩) ↔
      ¬ F.Trailing d) ∧
    (Exec.Ends (fun k => doConvertZdecompress (E.withFuel k) ⟨bufferConvertContextRead, ⟨d, 0⟩, 0⟩ ⟨T, u, 0⟩) ↔
      ¬ F.Trailing d) := by
  have hd := zdecompress_collected_ends_iff hZ d
  exact ⟨(zdecompress_ends_congr sameReader_sim rfl hT E u).trans hd,
    (zdecompress_ends_congr bufferReads_sim ⟨rfl, rfl, rfl⟩ hT E u).trans hd⟩

theorem lettersDeflated_complete : (StreamFormat.ofTransducer lettersCoder).Complete lettersDeflated :=
  .of_decode lettersCoder_deflated

theorem lettersDeflated_trailing : (StreamFormat.ofTransducer lettersCoder).Trailing (lettersDeflated ++ [0]) :=
  ⟨lettersDeflated, lettersDeflated_complete, List.prefix_append _ _, by simp⟩

/-- It ends on the stream of the letters, and not with a byte behind it. -/
theorem zdecompress_ends_iff_letters :
    Exec.Ends (fun k => doConvertZdecompress (coderEnv.withFuel k) ⟨fileConvertContextRead, lettersDeflated, 0⟩
      ⟨sha1ConvertContextWrite, [], 0⟩) ∧
    ¬ Exec.Ends (fun k => doConvertZdecompress (coderEnv.withFuel k)
      ⟨bufferConvertContextRead, ⟨lettersDeflated ++ [0], 0⟩, 0⟩ ⟨sha1ConvertContextWrite, [], 0⟩) :=
  ⟨(zdecompress_ends_iff coderEnv coderEnv_inflate (fun _ _ => rfl) [] _).1.2 lettersDeflated_complete.not_trailing,
    fun h => (zdecompress_ends_iff coderEnv coderEnv_inflate (fun _ _ => rfl) [] _).2.1 h lettersDeflated_trailing⟩

/-- **A byte behind a stream keeps decompression from ending**, with a zlib that keeps the contract. -/
theorem zdecompress_spins : coderEnv.zlib.InflateContract (.ofTransducer lettersCoder) ∧
    ¬ Exec.Ends (fun k => doConvertZdecompress (coderEnv.withFuel k)
      ⟨fileConvertContextRead, lettersDeflated ++ [0], 0⟩ ⟨sha1ConvertContextWrite, [], 0⟩) :=
  ⟨coderEnv_inflate, fun h => (zdecompress_collected_ends_iff coderEnv_inflate _).1 h lettersDeflated_trailing⟩

end Sfmf

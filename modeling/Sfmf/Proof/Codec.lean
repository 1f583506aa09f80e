import Sfmf.Lib.Transducer
import Sfmf.Proof.Convert
import Sfmf.Spec.Zlib

/-!
# A zlib that keeps the contract

Any transducer of bytes gives an `inflate`, and any encoder for its code a
`deflate`; together they are a zlib that does what the contract says. One of them
knows the stream that zlib makes of the letters, and has other data in stored blocks.

* `Zlib.ofTransducer`, `inflateContract_ofTransducer`,
  `deflateContract_ofTransducer`.
* `storedEncode`: streams of stored blocks, with their length (`storedEncode_length`).
* `lettersCoder`, `coderEnv`: the zlib of the letters.
-/

namespace Sfmf

/-! ## Streams of a transducer -/

/-- The format of the words that a transducer reads to its end. -/
def StreamFormat.ofTransducer (T : Transducer UInt8 UInt8) : StreamFormat where
  decode := T.decode
  prefixFree := Transducer.decode_prefixFree

/-- What a call of `inflate` returns. -/
def inflateRet {T : Transducer UInt8 UInt8} (p : T.Pulled) : ZRet :=
  if p.refused = true then .dataError
  else if T.ended p.next.state = true then .streamEnd
  else if p.consumed = 0 ∧ p.out = [] then .bufError
  else .ok

section InflateRet

variable {T : Transducer UInt8 UInt8} {p : T.Pulled}

theorem inflateRet_ok (h : inflateRet p = .ok) : 0 < p.consumed ∨ p.out ≠ [] := by
  unfold inflateRet at h
  split_ifs at h with _ _ hidle
  rw [not_and_or] at hidle
  exact hidle.imp_left Nat.pos_of_ne_zero

theorem inflateRet_streamEnd (hp : p.refused = true → T.ended p.next.state = false) :
    inflateRet p = .streamEnd ↔ T.ended p.next.state = true := by
  unfold inflateRet
  split_ifs with hr hend hidle
  · simp [hp hr]
  · simp [hend]
  all_goals simp [hend]

theorem inflateRet_valid (hr : p.refused = false)
    (hp : T.ended p.next.state = false → 0 < p.consumed ∨ p.out ≠ []) :
    inflateRet p = .ok ∨ inflateRet p = .streamEnd := by
  unfold inflateRet
  split_ifs with h hend hidle
  · rw [hr] at h; cases h
  · exact .inr rfl
  · rcases hp (by simpa using hend) with h | h
    · omega
    · exact absurd hidle.2 h
  · exact .inl rfl

end InflateRet

/-- The state of a stream of `deflate`: the input, and how much of its code has been given. -/
structure DeflateBuffer where
  input : Bytes
  given : ℕ

/-- The code of the input that has not been given yet. -/
def DeflateBuffer.pending (encode : Bytes → Bytes) (s : DeflateBuffer) : Bytes := (encode s.input).drop s.given

/-- The zlib of a transducer and an encoder: `deflate` gives all its output at the end. -/
def Zlib.ofTransducer (T : Transducer UInt8 UInt8) (encode : Bytes → Bytes) : Zlib where
  Deflate := DeflateBuffer
  Inflate := T.Pulling
  deflateInit := ⟨[], 0⟩
  inflateInit := ⟨T.start, []⟩
  deflate s x n flush :=
    let s : DeflateBuffer := ⟨s.input ++ x, s.given⟩
    let out := (s.pending encode).take n
    match flush with
    | .noFlush => ⟨s, x.length, [], .ok⟩
    | .finish => ⟨⟨s.input, s.given + out.length⟩, x.length, out,
        if (s.pending encode).length ≤ n then .streamEnd else .ok⟩
  inflate r x n _ :=
    let p := T.pull r x n
    ⟨p.next, p.consumed, p.out, inflateRet p⟩

variable {T : Transducer UInt8 UInt8} {encode : Bytes → Bytes}

/-- What is known of a stream of `inflate` from the calls so far. -/
structure InflateInv (r : T.Pulling) (t g : Bytes) : Prop where
  reads : T.run T.start t = some (r.state, g ++ r.owed)
  settled : r.Settled

theorem inflateInv_pull {r : T.Pulling} {t g : Bytes} (h : InflateInv r t g) (x : Bytes) (n : ℕ) :
    InflateInv (T.pull r x n).next (t ++ x.take (T.pull r x n).consumed) (g ++ (T.pull r x n).out) := by
  have hp := Transducer.pull_reads r x n
  obtain ⟨w, hrun, hout⟩ := hp.reads
  refine ⟨?_, hp.settled h.settled⟩
  rw [Transducer.run_append h.reads, hrun, Option.map_some, List.append_assoc, hout, List.append_assoc]

theorem inflateInv_of_inflating {r : (Zlib.ofTransducer T encode).Inflate} {t g : Bytes}
    (h : (Zlib.ofTransducer T encode).Inflating r t g) : InflateInv (T := T) r t g := by
  induction h with
  | init => exact ⟨rfl, fun _ => rfl⟩
  | call x n flush _ _ _ ih => exact inflateInv_pull ih x n

theorem InflateInv.complete {r : T.Pulling} {t g : Bytes} (h : InflateInv r t g) :
    (StreamFormat.ofTransducer T).Complete t ↔ T.ended r.state = true :=
  Transducer.decode_isSome h.reads

/-- A letter is refused only where no stream goes on. -/
theorem InflateInv.refused {r : T.Pulling} {t g x : Bytes} {n : ℕ} (h : InflateInv r t g)
    (hp : (T.pull r x n).refused = true) : ¬ (StreamFormat.ofTransducer T).Compatible (t ++ x) := by
  have hnext := inflateInv_pull h x n
  obtain ⟨hend, a, y, hdrop, hstep⟩ := (Transducer.pull_reads r x n).refused hp
  generalize T.pull r x n = p at *
  have hnone : T.run T.start (t ++ x.take p.consumed ++ [a]) = none := by
    rw [Transducer.run_append hnext.reads, Transducer.run, hstep]; rfl
  have hx : t ++ x.take p.consumed ++ [a] <+: t ++ x :=
    ⟨y, by rw [List.append_assoc, List.append_assoc, List.singleton_append, ← hdrop, List.take_append_drop]⟩
  rintro ⟨z, hz, hzx⟩
  -- a stream goes on with the letter, or ends before it
  have hcases : t ++ x.take p.consumed ++ [a] <+: z ∨ z <+: t ++ x.take p.consumed ++ [a] := by
    rcases hzx with hzx | hzx
    · exact .inl (hx.trans hzx)
    · exact List.prefix_or_prefix_of_prefix hx hzx
  rcases hcases with ⟨y', rfl⟩ | hzp
  · obtain ⟨s, hs, _⟩ := Transducer.decode_eq_some.1 hz.decode.choose_spec
    rw [Transducer.run_append_none hnone] at hs
    cases hs
  · rcases List.prefix_concat_iff.1 hzp with rfl | hzp
    · obtain ⟨s, hs, _⟩ := Transducer.decode_eq_some.1 hz.decode.choose_spec
      rw [hnone] at hs
      cases hs
    · rw [Transducer.decode_stops hnext.reads hz hzp, hnext.complete, hend] at hz
      cases hz

/-- **The `inflate` of a transducer keeps the contract.** -/
theorem inflateContract_ofTransducer (T : Transducer UInt8 UInt8) (encode : Bytes → Bytes) :
    (Zlib.ofTransducer T encode).InflateContract (.ofTransducer T) where
  fits x n _ _ _ := (Transducer.pull_reads _ x _).fits
  bounded := by
    refine ⟨fun t => ((T.run T.start t).map fun p => p.2.length).getD 0, fun {s t g} h => ?_⟩
    have hreads := (inflateInv_of_inflating h).reads
    simp [hreads]
  progress _ _ _ _ _ _ hret := inflateRet_ok hret
  ends {s t g} x n flush h hn := by
    have hnext := inflateInv_pull (inflateInv_of_inflating h) x n
    exact (inflateRet_streamEnd fun hr => ((Transducer.pull_reads s x n).refused hr).1).trans hnext.complete.symm
  after {s t g} x n flush h hn ht := by
    have hinv := inflateInv_of_inflating h
    have hend := hinv.complete.1 ht
    have hp := Transducer.pull_ended hend (hinv.settled hend) x n
    exact ⟨congrArg Transducer.Pulled.consumed hp, congrArg Transducer.Pulled.out hp⟩
  stops h hz hzt := Transducer.decode_stops (inflateInv_of_inflating h).reads hz hzt
  whole {s t g d} h ht := by
    have hinv := inflateInv_of_inflating h
    have hend := hinv.complete.1 (.of_decode ht)
    obtain ⟨s', hs', _⟩ := Transducer.decode_eq_some.1 ht
    have hreads := hinv.reads
    rw [hs', hinv.settled hend, List.append_nil] at hreads
    exact (Prod.mk.inj (Option.some.inj hreads)).2.symm
  valid {s t g x n} h hn hx hcomp := by
    have hinv := inflateInv_of_inflating h
    have hr : (T.pull s x n).refused = false := by
      by_contra hr
      exact hinv.refused (by simpa using hr) hcomp
    refine inflateRet_valid hr fun hend => ?_
    by_cases hs : T.ended (Transducer.Pulling.state s) = true
    · have hp := Transducer.pull_ended hs (hinv.settled hs) x n
      rw [show T.pull s x n = _ from hp] at hend
      rw [hs] at hend
      cases hend
    · exact Transducer.pull_progress hx hn (by simpa using hs) hr

/-- What is known of a stream of `deflate` from the calls so far. -/
structure DeflateInv (encode : Bytes → Bytes) (fin : Bool) (s : DeflateBuffer) (t g : Bytes) : Prop where
  input : s.input = t
  given : s.given = g.length
  begin : fin = false → g = []
  code : g <+: encode t

theorem DeflateInv.pending {fin : Bool} {s : DeflateBuffer} {t g : Bytes} (h : DeflateInv encode fin s t g) :
    g ++ (⟨s.input ++ [], s.given⟩ : DeflateBuffer).pending encode = encode t := by
  obtain ⟨rest, hrest⟩ := h.code
  rw [DeflateBuffer.pending, List.append_nil, h.input, h.given, ← hrest, List.drop_left]

theorem deflateInv_of_deflating {fin : Bool} {s : (Zlib.ofTransducer T encode).Deflate} {t g : Bytes}
    (h : (Zlib.ofTransducer T encode).Deflating fin s t g) : DeflateInv encode fin s t g := by
  induction h with
  | init => exact ⟨rfl, rfl, fun _ => rfl, List.nil_prefix⟩
  | @feed s t g x n _ _ _ _ ih =>
    obtain rfl := ih.begin rfl
    refine ⟨?_, ih.given, fun _ => rfl, List.nil_prefix⟩
    change DeflateBuffer.input s ++ x = t ++ x.take x.length
    rw [ih.input, List.take_length]
  | @finish fin s t g n _ _ _ ih =>
    refine ⟨(List.append_nil _).trans ih.input, ?_, (fun h => by cases h), ?_⟩
    · exact (congrArg (· + _) ih.given).trans List.length_append.symm
    · rw [← ih.pending]
      exact (List.prefix_append_right_inj g).2 (List.take_prefix n _)

/-- **The `deflate` of an encoder keeps the contract.** -/
theorem deflateContract_ofTransducer (T : Transducer UInt8 UInt8) (encode : Bytes → Bytes) :
    (Zlib.ofTransducer T encode).DeflateContract fun t z => z = encode t where
  bounded := ⟨fun t => (encode t).length, fun h => (deflateInv_of_deflating h).code.length_le⟩
  feed _ _ hx := ⟨rfl, .inl (List.length_pos_iff.2 hx)⟩
  finish {fin s t g n} h hn := by
    have hpending := (deflateInv_of_deflating h).pending
    generalize hrest : (⟨DeflateBuffer.input s ++ [], DeflateBuffer.given s⟩ : DeflateBuffer).pending encode = rest
      at hpending
    have hstep : (Zlib.ofTransducer T encode).deflate s [] n .finish =
        ⟨⟨DeflateBuffer.input s ++ [], DeflateBuffer.given s + (rest.take n).length⟩, 0, rest.take n,
          if rest.length ≤ n then .streamEnd else .ok⟩ := by
      rw [← hrest]
      rfl
    rw [hstep]
    -- whether the rest of the code has room in the buffer
    by_cases hle : rest.length ≤ n
    · refine .inr ⟨if_pos hle, ?_⟩
      change g ++ rest.take n = encode t
      rw [List.take_of_length_le hle, hpending]
    · refine .inl ⟨if_neg hle, fun hnil => ?_⟩
      have hlen := congrArg List.length hnil
      rw [List.length_take, List.length_nil] at hlen
      omega

/-! ## Streams of stored blocks -/

/-- The two sums of Adler-32. -/
def adlerStep (sums : ℕ × ℕ) (b : UInt8) : ℕ × ℕ :=
  ((sums.1 + b.toNat) % 65521, (sums.2 + sums.1 + b.toNat) % 65521)

/-- The end of a stream. -/
def adlerBytes (sums : ℕ × ℕ) : Bytes := put32 (UInt32.ofNat (sums.2 * 65536 + sums.1))

/-- What precedes the data of a stored block: whether it is the last one, and its size, twice. -/
def blockHeader (final : Bool) (size : ℕ) : Bytes :=
  let low := UInt8.ofNat size
  let high := UInt8.ofNat (size / 256)
  [if final then 1 else 0, low, high, ~~~low, ~~~high]

/-- The stored blocks of data: so many of 65535 bytes, and a last one. -/
def storedBlocks : ℕ → Bytes → Bytes
  | 0, d => blockHeader true d.length ++ d
  | n + 1, d => blockHeader false 65535 ++ (d.take 65535 ++ storedBlocks n (d.drop 65535))

/-- A stream of stored blocks, as zlib makes it of what it cannot compress. -/
def storedEncode (d : Bytes) : Bytes :=
  [120, 156] ++ (storedBlocks ((d.length - 1) / 65535) d ++ adlerBytes (d.foldl adlerStep (1, 0)))

theorem storedBlocks_length (n : ℕ) : ∀ d : Bytes, 65535 * n ≤ d.length →
    (storedBlocks n d).length = d.length + 5 * (n + 1) := by
  induction n with
  | zero => intro d _; simp [storedBlocks, blockHeader]
  | succ n ih =>
    intro d hd
    have hrest := ih (d.drop 65535) (by rw [List.length_drop]; omega)
    simp only [storedBlocks, List.length_append, hrest, List.length_take, List.length_drop, blockHeader,
      List.length_cons, List.length_nil]
    omega

theorem storedEncode_length (d : Bytes) : (storedEncode d).length = d.length + 5 * ((d.length - 1) / 65535) + 11 := by
  have hblocks := storedBlocks_length ((d.length - 1) / 65535) d (by omega)
  simp only [storedEncode, List.length_append, hblocks, adlerBytes, put32_length, List.length_cons, List.length_nil]
  omega

/-! ## The stream of the letters -/

/-- Where a stream is being read: other data than the letters stands in stored blocks. -/
inductive CoderState where
  | start
  | flags
  /-- behind the header of the stream -/
  | first
  /-- behind a block, with the sums of the data -/
  | block (sums : ℕ × ℕ)
  /-- in the sizes of a block -/
  | sizes (final : Bool) (sums : ℕ × ℕ) (read : Bytes)
  /-- in a block, with so many bytes to come -/
  | data (final : Bool) (sums : ℕ × ℕ) (left : ℕ)
  /-- in the checksum, with these bytes to come -/
  | check (left : Bytes)
  /-- so many bytes of the stream of the letters -/
  | known (k : ℕ)
  | ended
  deriving DecidableEq, Repr

namespace CoderState

/-- Behind the data of a block. -/
def behind (final : Bool) (sums : ℕ × ℕ) : CoderState := if final then .check (adlerBytes sums) else .block sums

/-- In front of the data of a block. -/
def inFront (final : Bool) (sums : ℕ × ℕ) (size : ℕ) : CoderState :=
  if size = 0 then behind final sums else .data final sums size

/-- Read the first byte of a block. -/
def blockStep (sums : ℕ × ℕ) (b : UInt8) : Option (CoderState × Bytes) :=
  if b = 0 then some (.sizes false sums [], []) else if b = 1 then some (.sizes true sums [], []) else none

/-- The sizes of a block have been read as far as this. -/
def sizesRead (final : Bool) (sums : ℕ × ℕ) : Bytes → Option CoderState
  | [low, high, low', high'] =>
    if low' = ~~~low ∧ high' = ~~~high then some (inFront final sums (low.toNat + 256 * high.toNat)) else none
  | read => some (.sizes final sums read)

/-- Read a byte. The content of the stream of the letters is known before its last byte. -/
def step : CoderState → UInt8 → Option (CoderState × Bytes)
  | .start, b => if b = 120 then some (.flags, []) else none
  | .flags, b => if b = 156 then some (.first, []) else none
  | .first, b => if b = 75 then some (.known 3, []) else blockStep (1, 0) b
  | .block sums, b => blockStep sums b
  | .sizes final sums read, b => (sizesRead final sums (read ++ [b])).map fun s => (s, [])
  | .data final sums left, b =>
    some (if left ≤ 1 then behind final (adlerStep sums b) else .data final (adlerStep sums b) (left - 1), [b])
  | .check left, b => if left.head? ≠ some b then none else some (if left.tail = [] then .ended else .check left.tail, [])
  | .known k, b =>
    if lettersDeflated[k]? ≠ some b then none
    else if k + 1 = lettersDeflated.length then some (.ended, [])
    else some (.known (k + 1), if k + 2 = lettersDeflated.length then letters else [])
  | .ended, _ => none

theorem behind_ne (final : Bool) (sums : ℕ × ℕ) : behind final sums ≠ .ended := by
  unfold behind
  split <;> simp

end CoderState

/-- The decoder that knows the stream of the letters. -/
def lettersCoder : Transducer UInt8 UInt8 where
  State := CoderState
  start := .start
  step := CoderState.step
  ended s := decide (s = .ended)
  ended_step {s} h a := by
    obtain rfl := of_decide_eq_true h
    rfl
  last_step {s a s' w} h hend := by
    obtain rfl := of_decide_eq_true hend
    cases s with
    | sizes final sums read =>
      obtain ⟨s, _, hs⟩ := Option.map_eq_some_iff.1 h
      exact (Prod.mk.inj hs).2.symm
    | data final sums left =>
      have hne := CoderState.behind_ne final (adlerStep sums a)
      have hs := (Prod.mk.inj (Option.some.inj h)).1
      split at hs
      · exact absurd hs hne
      · cases hs
    | _ =>
      simp only [CoderState.step, CoderState.blockStep] at h
      grind

/-- The encoder for it. -/
def lettersEncode (d : Bytes) : Bytes := if d = letters then lettersDeflated else storedEncode d

/-- The coder on its way through a word. -/
theorem lettersCoder_cons (s' : CoderState) (w : Bytes) {s : CoderState} {b : UInt8} {x d : Bytes}
    (hb : s.step b = some (s', w)) (hx : lettersCoder.run s' x = some (CoderState.ended, d)) :
    lettersCoder.run s (b :: x) = some (CoderState.ended, w ++ d) := by
  have hstep : lettersCoder.step s b = some (s', w) := hb
  rw [Transducer.run_cons hstep, hx]
  rfl

/-- The checksum is read to the end. -/
theorem lettersCoder_check : ∀ (left : Bytes), left ≠ [] →
    lettersCoder.run (CoderState.check left) left = some (CoderState.ended, []) := by
  intro left
  induction left with
  | nil => intro h; exact absurd rfl h
  | cons b left ih =>
    intro _
    by_cases hl : left = []
    · subst hl
      exact lettersCoder_cons .ended [] (by simp [CoderState.step]) rfl
    · exact lettersCoder_cons (.check left) [] (by simp [CoderState.step, hl]) (ih hl)

/-- The data of a block is written as it is read. -/
theorem lettersCoder_data {final : Bool} {x : Bytes} : ∀ {block : Bytes} {sums : ℕ × ℕ} {d : Bytes}, block ≠ [] →
    lettersCoder.run (CoderState.behind final (block.foldl adlerStep sums)) x = some (CoderState.ended, d) →
    lettersCoder.run (CoderState.data final sums block.length) (block ++ x) = some (CoderState.ended, block ++ d) := by
  intro block
  induction block with
  | nil => intro sums d h; exact absurd rfl h
  | cons b block ih =>
    intro sums d _ hx
    by_cases hb : block = []
    · subst hb
      exact lettersCoder_cons _ [b] (by simp [CoderState.step]) hx
    · exact lettersCoder_cons (.data final (adlerStep sums b) block.length) [b]
        (by simp [CoderState.step, hb]) (ih hb hx)

/-- **A block is read.** -/
theorem lettersCoder_block (final : Bool) {x block d : Bytes} {sums : ℕ × ℕ} {s : CoderState}
    (hs : ∀ b, b = 0 ∨ b = 1 → s.step b = CoderState.blockStep sums b) (hlen : block.length < 65536)
    (hx : lettersCoder.run (CoderState.behind final (block.foldl adlerStep sums)) x = some (CoderState.ended, d)) :
    lettersCoder.run s (blockHeader final block.length ++ (block ++ x)) = some (CoderState.ended, block ++ d) := by
  have hsize : block.length % 256 + 256 * (block.length / 256 % 256) = block.length := by omega
  have hdata : lettersCoder.run (CoderState.inFront final sums block.length) (block ++ x) =
      some (CoderState.ended, block ++ d) := by
    unfold CoderState.inFront
    by_cases hb : block = []
    · subst hb
      exact hx
    · have hlen : ¬ block.length = 0 := mt List.length_eq_zero_iff.1 hb
      simp only [if_neg hlen]
      exact lettersCoder_data hb hx
  have hsizes : CoderState.step (.sizes final sums [UInt8.ofNat block.length, UInt8.ofNat (block.length / 256),
      ~~~UInt8.ofNat block.length]) (~~~UInt8.ofNat (block.length / 256)) =
        some (CoderState.inFront final sums block.length, []) := by
    simp [CoderState.step, CoderState.sizesRead, hsize]
  refine lettersCoder_cons (.sizes final sums []) [] ?_ ?_
  · rw [hs _ (by cases final <;> simp)]
    cases final <;> rfl
  · exact lettersCoder_cons _ [] rfl (lettersCoder_cons _ [] rfl (lettersCoder_cons _ [] rfl
      (lettersCoder_cons _ [] hsizes hdata)))

/-- **Stored blocks are read.** -/
theorem lettersCoder_stored (n : ℕ) : ∀ {d : Bytes} {sums : ℕ × ℕ} {s : CoderState},
    (∀ b, b = 0 ∨ b = 1 → s.step b = CoderState.blockStep sums b) → d.length ≤ 65535 * (n + 1) → 65535 * n ≤ d.length →
    lettersCoder.run s (storedBlocks n d ++ adlerBytes (d.foldl adlerStep sums)) = some (CoderState.ended, d) := by
  induction n with
  | zero =>
    intro d sums s hs hle _
    have hcheck := lettersCoder_check (adlerBytes (d.foldl adlerStep sums))
      (List.ne_nil_of_length_pos (by simp [adlerBytes]))
    have hblock := lettersCoder_block true hs (by omega) hcheck
    rw [List.append_nil] at hblock
    rw [storedBlocks, List.append_assoc]
    exact hblock
  | succ n ih =>
    intro d sums s hs hle hge
    have htake : (d.take 65535).length = 65535 := by rw [List.length_take]; omega
    have hdrop : (d.drop 65535).length = d.length - 65535 := List.length_drop
    have hrest := @ih (d.drop 65535) ((d.take 65535).foldl adlerStep sums)
      (.block ((d.take 65535).foldl adlerStep sums)) (fun _ _ => rfl) (by omega) (by omega)
    rw [← List.foldl_append, List.take_append_drop] at hrest
    have hblock := lettersCoder_block false hs (by omega) hrest
    rw [htake, List.take_append_drop] at hblock
    simp only [storedBlocks, List.append_assoc]
    exact hblock

theorem lettersCoder_encode (d : Bytes) : lettersCoder.decode (lettersEncode d) = some d := by
  unfold lettersEncode
  split
  · next h => subst h; rfl
  · refine Transducer.decode_eq_some.2 ⟨CoderState.ended, ?_, rfl⟩
    have hstored := @lettersCoder_stored ((d.length - 1) / 65535) d (1, 0) .first (by rintro b (rfl | rfl) <;> rfl) (by omega) (by omega)
    exact lettersCoder_cons _ [] rfl (lettersCoder_cons _ [] rfl hstored)

/-- The environment of the letters, with streams for all data. -/
def coderEnv : Env :=
  { Env.ofTable [(letters, lettersDeflated, lettersDigest)] with zlib := .ofTransducer lettersCoder lettersEncode }

theorem coderEnv_inflate : coderEnv.zlib.InflateContract (.ofTransducer lettersCoder) :=
  inflateContract_ofTransducer _ _

theorem coderEnv_encode : coderEnv.zlib.DeflateContract fun t z => z = lettersEncode t :=
  deflateContract_ofTransducer _ _

theorem coderEnv_deflate : coderEnv.zlib.DeflateContract (StreamFormat.ofTransducer lettersCoder).StreamOf :=
  coderEnv_encode.mono fun t z hz => by
    subst hz
    exact lettersCoder_encode t

theorem lettersCoder_deflated : lettersCoder.decode lettersDeflated = some letters := rfl

end Sfmf

import Sfmf.Lib.Exec
import Sfmf.Lib.Stdio
import Sfmf.Lib.Sha1
import Sfmf.Spec.Format

/-!
# The hash implementation (`external/sha1.c`)

`SHA1_Transform` expands the message schedule in place, in the 16 words of the buffer
that it is given (`SHA1HANDSOFF` is not defined), and names its five variables anew
in each of the 80 calls instead of moving them. `SHA1_Update` gives it the
context's buffer and full blocks of the caller's data, so every function here
returns the bytes it was given as it leaves them.

The host is little-endian (`WORDS_BIGENDIAN` is not defined), and `size_t` has 64
bits.
-/

namespace Sfmf

/-! ## The context -/

/-- `uint8_t buffer[64]`. -/
abbrev Buffer64 := { b : Bytes // b.length = 64 }

/-- A buffer of zeros. -/
def Buffer64.zero : Buffer64 := ⟨List.replicate 64 0, List.length_replicate⟩

/-- `memcpy(&buffer[j], data, len)`. -/
def memcpyAt (buffer : Buffer64) (j : ℕ) (data : Bytes) : Buffer64 :=
  ⟨(buffer.val.take j ++ data ++ buffer.val.drop (j + data.length)).take 64, by simp; omega⟩

/-- `SHA1_CTX`. -/
structure Sha1Ctx where
  state : Sha1.Words
  count0 : UInt32
  count1 : UInt32
  buffer : Buffer64
  deriving DecidableEq, Repr

/-- `SHA1_Init`: the buffer is left as it is. -/
def sha1Init (context : Sha1Ctx) : Sha1Ctx :=
  { context with state := ⟨0x67452301, 0xEFCDAB89, 0x98BADCFE, 0x10325476, 0xC3D2E1F0⟩, count0 := 0, count1 := 0 }

/-! ## The transformation -/

/-- `rol`. -/
def rol (value bits : UInt32) : UInt32 := (value <<< bits) ||| (value >>> (32 - bits))

/-- The words `l` of a `CHAR64LONG16`. -/
abbrev Long16 := Vector UInt32 16

/-- A little-endian word in memory. -/
def getLong (c : Bytes) (i : ℕ) : UInt32 := UInt32.ofNat (ofBe (slice c (4 * i) 4).reverse)

/-- The words of 64 bytes. -/
def Long16.load (c : Bytes) : Long16 := Vector.ofFn fun i => getLong c i

/-- The bytes of 16 words. -/
def Long16.store (l : Long16) : Buffer64 :=
  ⟨l.toList.flatMap fun x => (be 4 x.toNat).reverse, by
    rw [@flatMap_length_const _ _ 4 (fun x => by simp), Vector.length_toList]⟩

/-- The index `i & 15`. -/
def at15 (i : ℕ) : Fin 16 := Fin.ofNat 16 i

/-- `blk0(i)`: the value, and the words with it stored. -/
def blk0 (l : Long16) (i : ℕ) : UInt32 × Long16 :=
  let x := (rol (l.get (at15 i)) 24 &&& 0xFF00FF00) ||| (rol (l.get (at15 i)) 8 &&& 0x00FF00FF)
  (x, l.set (at15 i) x (at15 i).isLt)

/-- `blk(i)`. -/
def blk (l : Long16) (i : ℕ) : UInt32 × Long16 :=
  let x := rol (l.get (at15 (i + 13)) ^^^ l.get (at15 (i + 8)) ^^^ l.get (at15 (i + 2)) ^^^ l.get (at15 i)) 1
  (x, l.set (at15 i) x (at15 i).isLt)

/-- The working variables, by name. -/
inductive Reg where
  | a | b | c | d | e
  deriving DecidableEq, Repr

def getReg (s : Sha1.Words) : Reg → UInt32
  | .a => s.a
  | .b => s.b
  | .c => s.c
  | .d => s.d
  | .e => s.e

def setReg (s : Sha1.Words) (r : Reg) (x : UInt32) : Sha1.Words :=
  match r with
  | .a => { s with a := x }
  | .b => { s with b := x }
  | .c => { s with c := x }
  | .d => { s with d := x }
  | .e => { s with e := x }

/-- The macros `R0` to `R4`. -/
inductive RMacro where
  | R0 | R1 | R2 | R3 | R4
  deriving DecidableEq, Repr

namespace RMacro

/-- The word of the schedule: `R0` reads the block, the others expand it. -/
def block : RMacro → Long16 → ℕ → UInt32 × Long16
  | R0 => blk0
  | _ => blk

/-- The function of the three variables that are only read. -/
def mix (w x y : UInt32) : RMacro → UInt32
  | R0 | R1 => (w &&& (x ^^^ y)) ^^^ y
  | R2 | R4 => w ^^^ x ^^^ y
  | R3 => ((w ||| x) &&& y) ||| (w &&& x)

/-- The constant. -/
def add : RMacro → UInt32
  | R0 | R1 => 0x5A827999
  | R2 => 0x6ED9EBA1
  | R3 => 0x8F1BBCDC
  | R4 => 0xCA62C1D6

end RMacro

/-- A call of one of the macros. -/
structure RCall where
  macroName : RMacro
  v : Reg
  w : Reg
  x : Reg
  y : Reg
  z : Reg
  i : ℕ
  deriving DecidableEq, Repr

/-- `R(v,w,x,y,z,i)`: `z+=mix+blk(i)+add+rol(v,5);w=rol(w,30);`. -/
def RCall.run (s : Sha1.Words × Long16) (r : RCall) : Sha1.Words × Long16 :=
  let (vars, l) := s
  let (word, l) := r.macroName.block l r.i
  let vars := setReg vars r.z (getReg vars r.z +
    (r.macroName.mix (getReg vars r.w) (getReg vars r.x) (getReg vars r.y) + word + r.macroName.add +
      rol (getReg vars r.v) 5))
  (setReg vars r.w (rol (getReg vars r.w) 30), l)

section

open Reg RMacro

/-- The loop of `SHA1_Transform`, unrolled. -/
def transformCalls : List RCall := [
  ⟨R0, a, b, c, d, e, 0⟩, ⟨R0, e, a, b, c, d, 1⟩, ⟨R0, d, e, a, b, c, 2⟩, ⟨R0, c, d, e, a, b, 3⟩,
  ⟨R0, b, c, d, e, a, 4⟩, ⟨R0, a, b, c, d, e, 5⟩, ⟨R0, e, a, b, c, d, 6⟩, ⟨R0, d, e, a, b, c, 7⟩,
  ⟨R0, c, d, e, a, b, 8⟩, ⟨R0, b, c, d, e, a, 9⟩, ⟨R0, a, b, c, d, e, 10⟩, ⟨R0, e, a, b, c, d, 11⟩,
  ⟨R0, d, e, a, b, c, 12⟩, ⟨R0, c, d, e, a, b, 13⟩, ⟨R0, b, c, d, e, a, 14⟩, ⟨R0, a, b, c, d, e, 15⟩,
  ⟨R1, e, a, b, c, d, 16⟩, ⟨R1, d, e, a, b, c, 17⟩, ⟨R1, c, d, e, a, b, 18⟩, ⟨R1, b, c, d, e, a, 19⟩,
  ⟨R2, a, b, c, d, e, 20⟩, ⟨R2, e, a, b, c, d, 21⟩, ⟨R2, d, e, a, b, c, 22⟩, ⟨R2, c, d, e, a, b, 23⟩,
  ⟨R2, b, c, d, e, a, 24⟩, ⟨R2, a, b, c, d, e, 25⟩, ⟨R2, e, a, b, c, d, 26⟩, ⟨R2, d, e, a, b, c, 27⟩,
  ⟨R2, c, d, e, a, b, 28⟩, ⟨R2, b, c, d, e, a, 29⟩, ⟨R2, a, b, c, d, e, 30⟩, ⟨R2, e, a, b, c, d, 31⟩,
  ⟨R2, d, e, a, b, c, 32⟩, ⟨R2, c, d, e, a, b, 33⟩, ⟨R2, b, c, d, e, a, 34⟩, ⟨R2, a, b, c, d, e, 35⟩,
  ⟨R2, e, a, b, c, d, 36⟩, ⟨R2, d, e, a, b, c, 37⟩, ⟨R2, c, d, e, a, b, 38⟩, ⟨R2, b, c, d, e, a, 39⟩,
  ⟨R3, a, b, c, d, e, 40⟩, ⟨R3, e, a, b, c, d, 41⟩, ⟨R3, d, e, a, b, c, 42⟩, ⟨R3, c, d, e, a, b, 43⟩,
  ⟨R3, b, c, d, e, a, 44⟩, ⟨R3, a, b, c, d, e, 45⟩, ⟨R3, e, a, b, c, d, 46⟩, ⟨R3, d, e, a, b, c, 47⟩,
  ⟨R3, c, d, e, a, b, 48⟩, ⟨R3, b, c, d, e, a, 49⟩, ⟨R3, a, b, c, d, e, 50⟩, ⟨R3, e, a, b, c, d, 51⟩,
  ⟨R3, d, e, a, b, c, 52⟩, ⟨R3, c, d, e, a, b, 53⟩, ⟨R3, b, c, d, e, a, 54⟩, ⟨R3, a, b, c, d, e, 55⟩,
  ⟨R3, e, a, b, c, d, 56⟩, ⟨R3, d, e, a, b, c, 57⟩, ⟨R3, c, d, e, a, b, 58⟩, ⟨R3, b, c, d, e, a, 59⟩,
  ⟨R4, a, b, c, d, e, 60⟩, ⟨R4, e, a, b, c, d, 61⟩, ⟨R4, d, e, a, b, c, 62⟩, ⟨R4, c, d, e, a, b, 63⟩,
  ⟨R4, b, c, d, e, a, 64⟩, ⟨R4, a, b, c, d, e, 65⟩, ⟨R4, e, a, b, c, d, 66⟩, ⟨R4, d, e, a, b, c, 67⟩,
  ⟨R4, c, d, e, a, b, 68⟩, ⟨R4, b, c, d, e, a, 69⟩, ⟨R4, a, b, c, d, e, 70⟩, ⟨R4, e, a, b, c, d, 71⟩,
  ⟨R4, d, e, a, b, c, 72⟩, ⟨R4, c, d, e, a, b, 73⟩, ⟨R4, b, c, d, e, a, 74⟩, ⟨R4, a, b, c, d, e, 75⟩,
  ⟨R4, e, a, b, c, d, 76⟩, ⟨R4, d, e, a, b, c, 77⟩, ⟨R4, c, d, e, a, b, 78⟩, ⟨R4, b, c, d, e, a, 79⟩]

end

/-- `SHA1_Transform`: the new state, and what is left in the buffer. -/
def sha1Transform (state : Sha1.Words) (buffer : Buffer64) : Sha1.Words × Buffer64 :=
  let (v, l) := transformCalls.foldl RCall.run (state, Long16.load buffer.val)
  (⟨state.a + v.a, state.b + v.b, state.c + v.c, state.d + v.d, state.e + v.e⟩, l.store)

/-! ## Updates -/

theorem dataBlock_length {data : Bytes} {i : ℕ} (h : i + 63 < data.length) : (slice data i 64).length = 64 := by
  rw [slice, List.length_take, List.length_drop]
  omega

/-- The 64 bytes of the data at `i`. -/
def dataBlock (data : Bytes) (i : ℕ) (h : i + 63 < data.length) : Buffer64 := ⟨slice data i 64, dataBlock_length h⟩

/-- The loop of `SHA1_Update` over the full blocks of the data, from `i` on, for at most `n` of them. -/
def updateLoop : ℕ → Sha1.Words → Bytes → ℕ → Sha1.Words × Bytes × ℕ
  | 0, state, data, i => (state, data, i)
  | n + 1, state, data, i =>
    if h : i + 63 < data.length then
      let (state, block) := sha1Transform state (dataBlock data i h)
      updateLoop n state (overwrite data i block.val) (i + 64)
    else (state, data, i)

/-- `len << 3`, of a `size_t`. -/
def lenBits (len : ℕ) : ℕ := (len * 8) % 2 ^ 64

/-- `count[0] += len << 3`. -/
def addCount0 (count0 : UInt32) (len : ℕ) : UInt32 := UInt32.ofNat (count0.toNat + lenBits len)

/-- `count[1]` after `if ((count[0] += len << 3) < (len << 3)) count[1]++;` and `count[1] += (len >> 29);`. What is
compared has the type `size_t`. -/
def addCount1 (count0 count1 : UInt32) (len : ℕ) : UInt32 :=
  (if (addCount0 count0 len).toNat < lenBits len then count1 + 1 else count1) + UInt32.ofNat (len / 2 ^ 29)

/-- `j = (count[0] >> 3) & 63`. -/
def bufferPos (count0 : UInt32) : ℕ := ((count0 >>> 3) &&& 63).toNat

/-- `SHA1_Update`: the context, and what is left in the data. -/
def sha1Update (context : Sha1Ctx) (data : Bytes) : Sha1Ctx × Bytes :=
  let len := data.length
  let j := bufferPos context.count0
  let count0 := addCount0 context.count0 len
  let count1 := addCount1 context.count0 context.count1 len
  if j + len > 63 then
    let i := 64 - j
    let (state, buffer) := sha1Transform context.state (memcpyAt context.buffer j (data.take i))
    let (state, data, i) := updateLoop len state data i
    (⟨state, count0, count1, memcpyAt buffer 0 (data.drop i)⟩, data)
  else (⟨context.state, count0, count1, memcpyAt context.buffer j data⟩, data)

/-! ## The digest -/

/-- `finalcount`. -/
def finalcount (context : Sha1Ctx) : Bytes := be 4 context.count1.toNat ++ be 4 context.count0.toNat

/-- The loop of `SHA1_Final` that adds zeros, for at most `n` of them. -/
def padLoop : ℕ → Sha1Ctx → Exec Sha1Ctx
  | 0, _ => .error .spin
  | n + 1, context =>
    if context.count0 &&& 504 ≠ 448 then padLoop n (sha1Update context [0]).1 else return context

/-- The rounds of `padLoop`: there are less zeros than bytes in a block. -/
def padRounds : ℕ := 64

/-- `context->state` as bytes. -/
def digestOf (state : Sha1.Words) : Digest :=
  ⟨be 4 state.a.toNat ++ be 4 state.b.toNat ++ be 4 state.c.toNat ++ be 4 state.d.toNat ++ be 4 state.e.toNat, by
    simp [sfmfMaxHashsize]⟩

/-- `SHA1_Final`: the digest. The context is wiped. -/
def sha1Final (context : Sha1Ctx) : Exec (Digest × Sha1Ctx) := do
  let count := finalcount context
  let context := (sha1Update context [0x80]).1
  let context ← padLoop padRounds context
  let context := (sha1Update context count).1
  return (digestOf context.state, ⟨⟨0, 0, 0, 0, 0⟩, 0, 0, Buffer64.zero⟩)

end Sfmf

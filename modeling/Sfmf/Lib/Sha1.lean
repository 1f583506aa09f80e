import Sfmf.Lib.BlockHash
import Sfmf.Lib.Bytes

/-!
# SHA-1

The hash function of FIPS 180: padding, message schedule, and the 80 steps on five
words. It is defined for messages of less than `2 ^ 61` bytes, whose length in
bits is a number of 64 bits.

* `Sha1.schedule`, `Sha1.rounds`, `Sha1.compression`: the compression function.
* `Sha1.digest`: the hash of a message.
-/

namespace Sfmf.Sha1

/-- The five words of a chaining value, and of the working variables. -/
structure Words where
  a : UInt32
  b : UInt32
  c : UInt32
  d : UInt32
  e : UInt32
  deriving DecidableEq, Repr

/-- Rotation to the left. -/
def rotl (n x : UInt32) : UInt32 := (x <<< n) ||| (x >>> (32 - n))

/-- The `t`-th word of a block. -/
def word (block : Bytes) (t : ℕ) : UInt32 := UInt32.ofNat (ofBe (slice block (4 * t) 4))

/-- **The message schedule** of a block. -/
def schedule (block : Bytes) (t : ℕ) : UInt32 :=
  if t < 16 then word block t
  else rotl 1 (schedule block (t - 3) ^^^ schedule block (t - 8) ^^^ schedule block (t - 14) ^^^ schedule block (t - 16))

def ch (x y z : UInt32) : UInt32 := (x &&& y) ^^^ (~~~x &&& z)

def parity (x y z : UInt32) : UInt32 := x ^^^ y ^^^ z

def maj (x y z : UInt32) : UInt32 := (x &&& y) ^^^ (x &&& z) ^^^ (y &&& z)

/-- The function of step `t`. -/
def func (t : ℕ) : UInt32 → UInt32 → UInt32 → UInt32 :=
  if t < 20 then ch else if t < 40 then parity else if t < 60 then maj else parity

/-- The constant of step `t`. -/
def const (t : ℕ) : UInt32 :=
  if t < 20 then 0x5A827999 else if t < 40 then 0x6ED9EBA1 else if t < 60 then 0x8F1BBCDC else 0xCA62C1D6

/-- Step `t`, with its word of the schedule. -/
def step (t : ℕ) (w : UInt32) (v : Words) : Words :=
  ⟨rotl 5 v.a + func t v.b v.c v.d + v.e + const t + w, v.a, rotl 30 v.b, v.c, v.d⟩

/-- The working variables after `t` steps. -/
def rounds (block : Bytes) (v : Words) : ℕ → Words
  | 0 => v
  | t + 1 => step t (schedule block t) (rounds block v t)

/-- The compression of a block of 64 bytes. -/
def compression (h : Words) (block : Bytes) : Words :=
  let v := rounds block h 80
  ⟨h.a + v.a, h.b + v.b, h.c + v.c, h.d + v.d, h.e + v.e⟩

/-- The blocks of SHA-1. -/
def compressor : Compressor UInt8 Words := ⟨64, by decide, compression⟩

/-- The initial value. -/
def initial : Words := ⟨0x67452301, 0xEFCDAB89, 0x98BADCFE, 0x10325476, 0xC3D2E1F0⟩

/-- The number of zeros behind the one bit. -/
def zeros (length : ℕ) : ℕ := (55 + 64 - length % 64) % 64

/-- The padding of a message of a length in bytes, that ends with a count of bits. -/
def padding (length bits : ℕ) : Bytes := 0x80 :: List.replicate (zeros length) 0 ++ be 8 bits

/-- The bytes of a chaining value. -/
def Words.bytes (h : Words) : Bytes :=
  be 4 h.a.toNat ++ be 4 h.b.toNat ++ be 4 h.c.toNat ++ be 4 h.d.toNat ++ be 4 h.e.toNat

/-- The hash of a message that is said to have some number of bits. -/
def counted (m : Bytes) (bits : ℕ) : Bytes := (compressor.chain initial (m ++ padding m.length bits)).bytes

/-- **The SHA-1 of a message.** -/
def digest (m : Bytes) : Bytes := counted m (8 * m.length)

@[simp] theorem Words.bytes_length (h : Words) : h.bytes.length = 20 := by simp [Words.bytes]

@[simp] theorem counted_length (m : Bytes) (bits : ℕ) : (counted m bits).length = 20 := Words.bytes_length _

@[simp] theorem digest_length (m : Bytes) : (digest m).length = 20 := Words.bytes_length _

/-- The count has 64 bits. -/
theorem counted_congr {m : Bytes} {bits bits' : ℕ} (h : bits % 2 ^ 64 = bits' % 2 ^ 64) :
    counted m bits = counted m bits' := by
  rw [counted, padding, be_congr h]
  rfl

end Sfmf.Sha1

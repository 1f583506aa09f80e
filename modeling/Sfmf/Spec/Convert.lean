import Sfmf.Lib.Stdio
import Sfmf.Spec.Format

/-!
# Conversions (`common/convert.c`)

The conversion loops read blocks from a source, run them through zlib or not, and
write blocks to a sink. zlib is a parameter (`Zlib`): the states of its two
streams and what one call of `deflate` or `inflate` does. So are SHA-1, the
number of rounds a zlib loop may take (`fuel`), what stdio lets through, and
whether the clone `ioctl` succeeds: they are the fields of `Env`.

A source carries the number of bytes it still has, so the loops over a source
end; the inner loops over zlib calls need not, and stop with `Stop.spin` when the
budget is used up.
-/

namespace Sfmf

/-! ## The parameters -/

/-- The return codes of zlib. -/
inductive ZRet where
  | ok
  | streamEnd
  | needDict
  | streamError
  | dataError
  | memError
  | bufError
  deriving DecidableEq, Repr

/-- The flush argument: `0` or `Z_FINISH`. -/
inductive ZFlush where
  | noFlush
  | finish
  deriving DecidableEq, Repr

/-- What one call of `deflate` or `inflate` does: how many bytes of the input it
takes, what it puts into the output buffer, and what it returns. -/
structure ZStep (σ : Type) where
  state : σ
  consumed : ℕ
  out : Bytes
  ret : ZRet

/-- zlib: a call gets the stream's state, the available input and the size of the
output buffer. -/
structure Zlib where
  Deflate : Type
  Inflate : Type
  deflateInit : Deflate
  inflateInit : Inflate
  deflate : Deflate → Bytes → ℕ → ZFlush → ZStep Deflate
  inflate : Inflate → Bytes → ℕ → ZFlush → ZStep Inflate

/-- What the code relies on outside its own sources. -/
structure Env where
  zlib : Zlib
  /-- SHA-1 of a byte string -/
  sha1 : Bytes → Digest
  /-- rounds a loop of zlib calls may take -/
  fuel : ℕ
  /-- how much of a stdio buffer is let through to the disk after an `fwrite` -/
  flush : Bytes → ℕ
  /-- whether the `k`-th write operation of an output file, if it is a plain copy, can be a clone -/
  clone : ℕ → Bool

/-- The file system has no reflinks. -/
def Env.NoReflink (E : Env) : Prop := ∀ k, E.clone k = false

/-- `DEFAULT_BUFFER_SIZE`. -/
def defaultBufferSize : ℕ := 64 * 1024

/-- `enum ConvertFlags`. -/
inductive ConvertFlags where
  | none
  | zcompress
  | zuncompress
  deriving DecidableEq, Repr

/-! ## Sources and sinks -/

/-- A `transfer` function used for reading, with the number of bytes left. -/
structure Source (σ : Type) where
  read : σ → ℕ → Bytes × σ
  left : σ → ℕ
  read_left : ∀ s n, (read s n).1.length + left (read s n).2 = left s

/-- A `transfer` function used for writing: the number of bytes it took. -/
structure Sink (ω : Type) where
  write : ω → Bytes → ℕ × ω

variable {σ ω ω' : Type}

/-- `struct ConvertIO` for reading. -/
structure Reader (σ : Type) where
  transfer : Source σ
  userData : σ
  total : ℕ

/-- `struct ConvertIO` for writing. -/
structure Writer (ω : Type) where
  transfer : Sink ω
  userData : ω
  total : ℕ

/-- `convert_io_read`. -/
def convertIoRead (io : Reader σ) (len : ℕ) : Bytes × Reader σ :=
  let (buf, u) := io.transfer.read io.userData len
  (buf, { io with userData := u, total := io.total + buf.length })

/-- `convert_io_write`. -/
def convertIoWrite (io : Writer ω) (buf : Bytes) : ℕ × Writer ω :=
  let (res, u) := io.transfer.write io.userData buf
  (res, { io with userData := u, total := io.total + res })

/-- `file_convert_context_read`: a file with the rest of its content. -/
def fileConvertContextRead : Source Bytes where
  read d len := (d.take len, d.drop len)
  left d := d.length
  read_left d len := by simp; omega

/-- `struct BufferConvertContextSource`. -/
structure BufferConvertContextSource where
  buf : Bytes
  pos : ℕ
  deriving DecidableEq, Repr

/-- What is read at once is not more than what remains. -/
theorem ite_le_remaining (len remaining : ℕ) : (if len > remaining then remaining else len) ≤ remaining := by
  split <;> omega

/-- `buffer_convert_context_read`. -/
def bufferConvertContextRead : Source BufferConvertContextSource where
  read source len :=
    let remaining := source.buf.length - source.pos
    let len := if len > remaining then remaining else len
    (slice source.buf source.pos len, { source with pos := source.pos + len })
  left source := source.buf.length - source.pos
  read_left source _ := slice_left source.buf (ite_le_remaining _ _)

/-- `duplicate_convert_io_read`: what is read from the master is written to the slave. -/
def duplicateConvertIoRead (master : Source σ) (slave : Sink ω) : Source (σ × ω) where
  read ctx len :=
    let (buf, s) := master.read ctx.1 len
    (buf, (s, (slave.write ctx.2 buf).2))
  left ctx := master.left ctx.1
  read_left ctx len := master.read_left ctx.1 len

/-- `sha1_convert_context_write`: the context is what it has absorbed. -/
def sha1ConvertContextWrite : Sink Bytes where
  write ctx buf := (buf.length, ctx ++ buf)

/-- `null_convert_context_write`. -/
def nullConvertContextWrite : Sink Unit where
  write _ buf := (buf.length, ())

/-- `file_convert_context_write`. -/
def fileConvertContextWrite (E : Env) : Sink FILE where
  write fp buf := (buf.length, fp.fwrite E.flush buf)

/-! ## The loops -/

variable (E : Env)

/-- The loop of `do_convert_uncompressed`, for at most `n` blocks. -/
def uncompressedLoop : ℕ → Reader σ → Writer ω → Exec (Reader σ × Writer ω)
  | 0, _, _ => .error .spin
  | n + 1, r, w => do
    let (buf, r) := convertIoRead r defaultBufferSize
    if buf = [] then return (r, w)
    let (res, w) := convertIoWrite w buf
    cAssert (res = buf.length) "res == len"
    uncompressedLoop n r w

/-- `do_convert_uncompressed`. -/
def doConvertUncompressed (r : Reader σ) (w : Writer ω) : Exec (Reader σ × Writer ω) :=
  uncompressedLoop (r.transfer.left r.userData + 1) r w

/-- The inner loop of `do_convert_zcompressed`: let `deflate` consume the whole input buffer. -/
def deflateInput : ℕ → E.zlib.Deflate → Bytes → Writer ω → Exec (E.zlib.Deflate × Writer ω)
  | 0, _, _, _ => .error .spin
  | n + 1, stream, input, w => do
    let z := E.zlib.deflate stream input defaultBufferSize .noFlush
    cAssert (z.ret = .ok) "res == Z_OK"
    let (res, w) := convertIoWrite w z.out
    cAssert (res = z.out.length) "res == len"
    if input.drop z.consumed = [] then return (z.state, w)
    deflateInput n z.state (input.drop z.consumed) w

/-- The last loop of `do_convert_zcompressed`: read the output buffer empty. -/
def deflateFinish : ℕ → E.zlib.Deflate → Writer ω → Exec (Writer ω)
  | 0, _, _ => .error .spin
  | n + 1, stream, w => do
    let z := E.zlib.deflate stream [] defaultBufferSize .finish
    cAssert (z.ret = .ok ∨ z.ret = .streamEnd) "res == Z_OK || res == Z_STREAM_END"
    let (res, w) := convertIoWrite w z.out
    cAssert (res = z.out.length) "res == len"
    if z.ret = .streamEnd then return w
    deflateFinish n z.state w

/-- The outer loop of `do_convert_zcompressed`, for at most `n` blocks. -/
def zcompressedLoop : ℕ → E.zlib.Deflate → Reader σ → Writer ω → Exec (Reader σ × Writer ω)
  | 0, _, _, _ => .error .spin
  | n + 1, stream, r, w => do
    let (buf, r) := convertIoRead r defaultBufferSize
    if buf = [] then
      let w ← deflateFinish E E.fuel stream w
      return (r, w)
    let (stream, w) ← deflateInput E E.fuel stream buf w
    zcompressedLoop n stream r w

/-- `do_convert_zcompressed`. -/
def doConvertZcompressed (r : Reader σ) (w : Writer ω) : Exec (Reader σ × Writer ω) :=
  zcompressedLoop E (r.transfer.left r.userData + 1) E.zlib.deflateInit r w

/-- The inner loop of `do_convert_zdecompress`. It ends on the rest of the input, not on what
`inflate` returns. -/
def inflateInput : ℕ → E.zlib.Inflate → Bytes → Writer ω → Exec (E.zlib.Inflate × Writer ω)
  | 0, _, _, _ => .error .spin
  | n + 1, stream, input, w => do
    let z := E.zlib.inflate stream input defaultBufferSize .noFlush
    cAssert (z.ret = .ok ∨ z.ret = .streamEnd) "res == Z_OK || res == Z_STREAM_END"
    let (res, w) := convertIoWrite w z.out
    cAssert (res = z.out.length) "res == len"
    if input.drop z.consumed = [] then return (z.state, w)
    inflateInput n z.state (input.drop z.consumed) w

/-- The last loop of `do_convert_zdecompress`. -/
def inflateFinish : ℕ → E.zlib.Inflate → Writer ω → Exec (Writer ω)
  | 0, _, _ => .error .spin
  | n + 1, stream, w => do
    let z := E.zlib.inflate stream [] defaultBufferSize .finish
    cAssert (z.ret = .ok ∨ z.ret = .streamEnd) "res == Z_OK || res == Z_STREAM_END"
    let (res, w) := convertIoWrite w z.out
    cAssert (res = z.out.length) "res == len"
    if z.ret = .streamEnd then return w
    inflateFinish n z.state w

/-- The outer loop of `do_convert_zdecompress`, for at most `n` blocks. -/
def zdecompressLoop : ℕ → E.zlib.Inflate → Reader σ → Writer ω → Exec (Reader σ × Writer ω)
  | 0, _, _, _ => .error .spin
  | n + 1, stream, r, w => do
    let (buf, r) := convertIoRead r defaultBufferSize
    if buf = [] then
      let w ← inflateFinish E E.fuel stream w
      return (r, w)
    let (stream, w) ← inflateInput E E.fuel stream buf w
    zdecompressLoop n stream r w

/-- `do_convert_zdecompress`. -/
def doConvertZdecompress (r : Reader σ) (w : Writer ω) : Exec (Reader σ × Writer ω) :=
  zdecompressLoop E (r.transfer.left r.userData + 1) E.zlib.inflateInit r w

/-- `run_conversion`. -/
def runConversion (r : Reader σ) (w : Writer ω) (flags : ConvertFlags) : Exec (Reader σ × Writer ω) :=
  match flags with
  | .none => doConvertUncompressed r w
  | .zcompress => doConvertZcompressed E r w
  | .zuncompress => doConvertZdecompress E r w

/-! ## Conversions between files -/

/-- `convert_file_fp` from a file with content `src`; `clone` is the outcome of `clone_file`,
which is only tried for a plain copy. -/
def convertFileFp (clone : Bool) (src : Bytes) (outfile : FILE) (flags : ConvertFlags) : Exec FILE :=
  if flags = .none ∧ clone = true then return outfile.cloneRange src
  else do
    let (_, w) ← runConversion E ⟨fileConvertContextRead, src, 0⟩ ⟨fileConvertContextWrite E, outfile, 0⟩ flags
    return w.userData

/-- `convert_buffer_fp`. -/
def convertBufferFp (buf : Bytes) (outfile : FILE) (flags : ConvertFlags) : Exec FILE := do
  let (_, w) ← runConversion E ⟨bufferConvertContextRead, ⟨buf, 0⟩, 0⟩
    ⟨fileConvertContextWrite E, outfile, 0⟩ flags
  return w.userData

/-- One write operation of the code on an output file. -/
inductive StreamOp where
  /-- `fwrite` -/
  | fwrite (b : Bytes)
  /-- `convert_file_fp` from a file with content `src` -/
  | convertFile (src : Bytes) (flags : ConvertFlags)
  /-- `convert_buffer_fp` -/
  | convertBuffer (buf : Bytes) (flags : ConvertFlags)
  deriving DecidableEq, Repr

/-- The operation on the file; `clone` is the outcome of a `clone_file` in it. -/
def StreamOp.run (clone : Bool) (fp : FILE) : StreamOp → Exec FILE
  | .fwrite b => return fp.fwrite E.flush b
  | .convertFile src flags => convertFileFp E clone src fp flags
  | .convertBuffer buf flags => convertBufferFp E buf fp flags

/-- The operations from the `k`-th on. -/
def runOps (clone : ℕ → Bool) : ℕ → FILE → List StreamOp → Exec FILE
  | _, fp, [] => return fp
  | k, fp, op :: ops => do
    let fp ← op.run E (clone k) fp
    runOps clone (k + 1) fp ops

/-- Create a file, write it by these operations, and close it: its content. `clone` are the outcomes
of `clone_file` in the operations. -/
def writeFileWith (clone : ℕ → Bool) (ops : List StreamOp) : Exec Bytes := do
  let fp ← runOps E clone 0 .fopen ops
  return fp.fclose

/-- The same with the outcomes of this file system. -/
def writeFile (ops : List StreamOp) : Exec Bytes := writeFileWith E E.clone ops

/-- `convert_file`, from a file with content `src` to a new file: the new content. -/
def convertFile (src : Bytes) (flags : ConvertFlags) : Exec Bytes := writeFile E [.convertFile src flags]

/-! ## Hashes of files -/

/-- `convert_file_zsize_hash` on a file with content `d`: the new hash and, if `wantZsize`, the
compressed size. The size of the hash is only set when the compressed size is not asked for. -/
def convertFileZsizeHash (d : Bytes) (hash : SfmfFileHash) (wantZsize : Bool) :
    Exec (SfmfFileHash × Option UInt32) := do
  let (r, w) ← runConversion E
    ⟨duplicateConvertIoRead fileConvertContextRead sha1ConvertContextWrite, (d, []), 0⟩
    ⟨nullConvertContextWrite, (), 0⟩ (if wantZsize then .zcompress else .none)
  let hash := { hash with hashtype := hashtypeSha1, hash := E.sha1 r.userData.2 }
  if wantZsize then return (hash, some (UInt32.ofNat w.total))
  else return ({ hash with size := UInt32.ofNat w.total }, none)

/-- `convert_file_hash` on a file with content `d`. -/
def convertFileHash (d : Bytes) (flags : ConvertFlags) : Exec SfmfFileHash := do
  let (_, w) ← runConversion E ⟨fileConvertContextRead, d, 0⟩ ⟨sha1ConvertContextWrite, [], 0⟩ flags
  return ⟨UInt32.ofNat w.total, hashtypeSha1, E.sha1 w.userData⟩

/-- `sfmf_filehash_verify` on a file with content `d`: whether the hash is the expected one. -/
def sfmfFilehashVerify (expected : SfmfFileHash) (d : Bytes) (zcompressed : Bool) : Exec Bool := do
  let hash ← convertFileHash E d (if zcompressed then .zuncompress else .none)
  let _ ← sfmfFilehashFormat expected
  let same ← sfmfFilehashCompare hash expected
  if same then return true
  else
    let _ ← sfmfFilehashFormat hash
    return false

end Sfmf

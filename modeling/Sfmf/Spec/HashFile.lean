import Sfmf.Spec.Convert
import Sfmf.Spec.Sha1

/-!
# Hashes of files, on contexts of `sha1.c` (`common/convert.c`, `common/fileentry.c`)

`Spec/Convert.lean` hashes the bytes that a sink has collected. Here the sink is
the one of the code: a context that is updated with each block. What reads from
a file and hashes it passes the same buffer to `SHA1_Update` and to its caller,
and `SHA1_Update` writes to its data, so a `transfer` function for writing
returns the buffer as it leaves it.
-/

namespace Sfmf

variable {σ ω : Type}

/-- A `transfer` function used for writing, with the buffer that it leaves. -/
structure BufferSink (ω : Type) where
  write : ω → Bytes → ℕ × ω × Bytes
  keeps : ∀ u b, (write u b).2.2.length = b.length

/-- The same for a caller that does not look at the buffer again. -/
def BufferSink.sink (S : BufferSink ω) : Sink ω where
  write u b :=
    let (res, u, _) := S.write u b
    (res, u)

/-- `sha1_convert_context_write`: the update is made with a copy. -/
def sha1ConvertContextUpdate : BufferSink Sha1Ctx where
  write ctx buf :=
    let tmp := buf
    (buf.length, (sha1Update ctx tmp).1, buf)
  keeps _ _ := rfl

/-- `duplicate_convert_io_read`: the buffer goes to the slave before the caller gets it. -/
def duplicateConvertIoReadBuffer (master : Source σ) (slave : BufferSink ω) : Source (σ × ω) where
  read ctx len :=
    let (buf, s) := master.read ctx.1 len
    let (_, u, buf) := slave.write ctx.2 buf
    (buf, (s, u))
  left ctx := master.left ctx.1
  read_left ctx len := by
    have := master.read_left ctx.1 len
    simp only [slave.keeps]
    exact this

variable (E : Env)

/-- `convert_file_zsize_hash`, with what is on the stack in the place of the context. -/
def convertFileZsizeHashCtx (stack : Sha1Ctx) (d : Bytes) (hash : SfmfFileHash) (wantZsize : Bool) :
    Exec (SfmfFileHash × Option UInt32) := do
  let sha1ctx := sha1Init stack
  let (r, w) ← runConversion E
    ⟨duplicateConvertIoReadBuffer fileConvertContextRead sha1ConvertContextUpdate, (d, sha1ctx), 0⟩
    ⟨nullConvertContextWrite, (), 0⟩ (if wantZsize then .zcompress else .none)
  let (digest, _) ← sha1Final r.userData.2
  let hash := { hash with hashtype := hashtypeSha1, hash := digest }
  if wantZsize then return (hash, some (UInt32.ofNat w.total))
  else return ({ hash with size := UInt32.ofNat w.total }, none)

/-- `convert_file_hash`, with what is on the stack in the place of the context. -/
def convertFileHashCtx (stack : Sha1Ctx) (d : Bytes) (flags : ConvertFlags) : Exec SfmfFileHash := do
  let sha1ctx := sha1Init stack
  let (_, w) ← runConversion E ⟨fileConvertContextRead, d, 0⟩ ⟨sha1ConvertContextUpdate.sink, sha1ctx, 0⟩ flags
  let (digest, _) ← sha1Final w.userData
  return ⟨UInt32.ofNat w.total, hashtypeSha1, digest⟩

/-- `SHA1` of `fileentry.c`, on a buffer. -/
def sha1Buffer (buf : Bytes) : Exec Digest := do
  let ctx : Sha1Ctx := ⟨⟨0, 0, 0, 0, 0⟩, 0, 0, Buffer64.zero⟩
  let ctx := sha1Init ctx
  let (ctx, _) := sha1Update ctx buf
  let (hash, _) ← sha1Final ctx
  return hash

end Sfmf

import Sfmf.Proof.Sha1
import Sfmf.Proof.Codec
import Sfmf.Spec.HashFile

/-!
# The hash of a file is the SHA-1 of its bytes

* `runConversion_kept`: what the loops of `convert.c` keep, if each block that is
  read and each block that is written keeps it.
* `convertFileHashCtx_eq`, `convertFileZsizeHashCtx_eq`: on contexts of `sha1.c`, the
  hashes of files are those of the model, with SHA-1 for the hash function. What is
  hashed on its way to zlib comes there unchanged.
-/

namespace Sfmf

variable {σ ω : Type}

/-! ## What the loops keep -/

/-- zlib does not give more than fits into the buffer. -/
structure Zlib.Fits (Z : Zlib) : Prop where
  deflate : ∀ s x n f, (Z.deflate s x n f).out.length ≤ n
  inflate : ∀ s x n f, (Z.inflate s x n f).out.length ≤ n

/-- A property of a reader that a block that is read keeps. -/
structure KeptByReads (P : Reader σ → Prop) : Prop where
  next : ∀ {r}, P r → P (convertIoRead r defaultBufferSize).2
  small : ∀ {r}, P r → (convertIoRead r defaultBufferSize).1.length ≤ defaultBufferSize

/-- A property of a writer that a block that is written keeps. -/
def KeptByWrites (T : Writer ω → Prop) : Prop :=
  ∀ w b, T w → b.length ≤ defaultBufferSize → T (convertIoWrite w b).2

section Kept

variable {P : Reader σ → Prop} {T : Writer ω → Prop} (hP : KeptByReads P) (hT : KeptByWrites T) {E : Env}
  (hE : E.zlib.Fits)

include hP hT in
theorem uncompressedLoop_kept : ∀ {n r w r' w'}, uncompressedLoop n r w = .ok (r', w') → P r → T w → P r' ∧ T w' := by
  intro n
  induction n with
  | zero => intro r w r' w' h; cases h
  | succ n ih =>
    intro r w r' w' h hr hw
    simp only [uncompressedLoop] at h
    split at h
    · cases h
      exact ⟨hP.next hr, hw⟩
    · simp only [bind_ok, cAssert_ok] at h
      obtain ⟨-, -, h⟩ := h
      exact ih h (hP.next hr) (hT _ _ hw (hP.small hr))

include hT hE in
theorem deflateInput_kept : ∀ {n s input w s' w'}, deflateInput E n s input w = .ok (s', w') → T w → T w' := by
  intro n
  induction n with
  | zero => intro s input w s' w' h; cases h
  | succ n ih =>
    intro s input w s' w' h hw
    simp only [deflateInput, bind_ok, cAssert_ok] at h
    obtain ⟨-, -, -, -, h⟩ := h
    have hnext := hT _ _ hw (hE.deflate s input defaultBufferSize .noFlush)
    split at h
    · cases h
      exact hnext
    · exact ih h hnext

include hT hE in
theorem deflateFinish_kept : ∀ {n s w w'}, deflateFinish E n s w = .ok w' → T w → T w' := by
  intro n
  induction n with
  | zero => intro s w w' h; cases h
  | succ n ih =>
    intro s w w' h hw
    simp only [deflateFinish, bind_ok, cAssert_ok] at h
    obtain ⟨-, -, -, -, h⟩ := h
    have hnext := hT _ _ hw (hE.deflate s [] defaultBufferSize .finish)
    split at h
    · cases h
      exact hnext
    · exact ih h hnext

include hP hT hE in
theorem zcompressedLoop_kept : ∀ {n s r w r' w'}, zcompressedLoop E n s r w = .ok (r', w') → P r → T w → P r' ∧ T w' := by
  intro n
  induction n with
  | zero => intro s r w r' w' h; cases h
  | succ n ih =>
    intro s r w r' w' h hr hw
    simp only [zcompressedLoop] at h
    split at h
    · simp only [bind_ok] at h
      obtain ⟨w₁, hfinish, h⟩ := h
      cases h
      exact ⟨hP.next hr, deflateFinish_kept hT hE hfinish hw⟩
    · simp only [bind_ok] at h
      obtain ⟨⟨s₁, w₁⟩, hinput, h⟩ := h
      exact ih h (hP.next hr) (deflateInput_kept hT hE hinput hw)

include hT hE in
theorem inflateInput_kept : ∀ {n s input w s' w'}, inflateInput E n s input w = .ok (s', w') → T w → T w' := by
  intro n
  induction n with
  | zero => intro s input w s' w' h; cases h
  | succ n ih =>
    intro s input w s' w' h hw
    simp only [inflateInput, bind_ok, cAssert_ok] at h
    obtain ⟨-, -, -, -, h⟩ := h
    have hnext := hT _ _ hw (hE.inflate s input defaultBufferSize .noFlush)
    split at h
    · cases h
      exact hnext
    · exact ih h hnext

include hT hE in
theorem inflateFinish_kept : ∀ {n s w w'}, inflateFinish E n s w = .ok w' → T w → T w' := by
  intro n
  induction n with
  | zero => intro s w w' h; cases h
  | succ n ih =>
    intro s w w' h hw
    simp only [inflateFinish, bind_ok, cAssert_ok] at h
    obtain ⟨-, -, -, -, h⟩ := h
    have hnext := hT _ _ hw (hE.inflate s [] defaultBufferSize .finish)
    split at h
    · cases h
      exact hnext
    · exact ih h hnext

include hP hT hE in
theorem zdecompressLoop_kept : ∀ {n s r w r' w'}, zdecompressLoop E n s r w = .ok (r', w') → P r → T w → P r' ∧ T w' := by
  intro n
  induction n with
  | zero => intro s r w r' w' h; cases h
  | succ n ih =>
    intro s r w r' w' h hr hw
    simp only [zdecompressLoop] at h
    split at h
    · simp only [bind_ok] at h
      obtain ⟨w₁, hfinish, h⟩ := h
      cases h
      exact ⟨hP.next hr, inflateFinish_kept hT hE hfinish hw⟩
    · simp only [bind_ok] at h
      obtain ⟨⟨s₁, w₁⟩, hinput, h⟩ := h
      exact ih h (hP.next hr) (inflateInput_kept hT hE hinput hw)

include hP hT hE in
/-- **What every block keeps is kept by the conversion.** -/
theorem runConversion_kept {r : Reader σ} {w : Writer ω} {flags : ConvertFlags} {r' : Reader σ} {w' : Writer ω}
    (h : runConversion E r w flags = .ok (r', w')) (hr : P r) (hw : T w) : P r' ∧ T w' := by
  cases flags with
  | none => exact uncompressedLoop_kept hP hT h hr hw
  | zcompress => exact zcompressedLoop_kept hP hT hE h hr hw
  | zuncompress => exact zdecompressLoop_kept hP hT hE h hr hw

end Kept

/-! ## The pieces of the message -/

/-- A sink that keeps the blocks apart. -/
def recordPieces : Sink (List Bytes) where
  write pieces buf := (buf.length, pieces ++ [buf])

/-- The pieces are small. -/
def SmallPieces (pieces : List Bytes) : Prop := ∀ p ∈ pieces, p.length ≤ defaultBufferSize

theorem SmallPieces.snoc {pieces : List Bytes} (h : SmallPieces pieces) {b : Bytes} (hb : b.length ≤ defaultBufferSize) :
    SmallPieces (pieces ++ [b]) := by
  intro p hp
  rcases List.mem_append.1 hp with hp | hp
  · exact h p hp
  · rwa [List.mem_singleton.1 hp]

theorem sha1Updates_snoc (context : Sha1Ctx) (pieces : List Bytes) (b : Bytes) :
    sha1Updates context (pieces ++ [b]) = (sha1Update (sha1Updates context pieces) b).1 := by
  simp [sha1Updates]

/-- **A context that is updated with small pieces** ends with their SHA-1. -/
theorem SmallPieces.final {pieces : List Bytes} (h : SmallPieces pieces) (stack : Sha1Ctx) :
    sha1Final (sha1Updates (sha1Init stack) pieces) =
      .ok (⟨Sha1.digest pieces.flatten, Sha1.digest_length _⟩, wipedCtx) :=
  sha1Final_digest stack fun p hp => (h p hp).trans_lt (by simp [defaultBufferSize])

theorem recordPieces_kept : KeptByWrites fun w => w.transfer = recordPieces ∧ SmallPieces w.userData := by
  rintro ⟨_, pieces, total⟩ b ⟨rfl, h⟩ hb
  exact ⟨rfl, h.snoc hb⟩

/-- A reader of files gives no more than it is asked for. -/
theorem fileReads_kept : KeptByReads fun r => r.transfer = fileConvertContextRead where
  next := by rintro ⟨_, d, total⟩ rfl; rfl
  small := by
    rintro ⟨_, d, total⟩ rfl
    exact List.length_take_le _ _

/-- A context, and the pieces that it has got. -/
structure ContextPieces (stack : Sha1Ctx) (w : Writer Sha1Ctx) (w' : Writer (List Bytes)) : Prop where
  left : w.transfer = sha1ConvertContextUpdate.sink
  right : w'.transfer = recordPieces
  context : w.userData = sha1Updates (sha1Init stack) w'.userData
  total : w.total = w'.total

theorem contextPieces_sim (stack : Sha1Ctx) : WriteSim (ContextPieces stack) where
  left := by rintro ⟨_, u, t⟩ ⟨_, u', t'⟩ ⟨rfl, rfl, -, -⟩ b; rfl
  right := by rintro ⟨_, u, t⟩ ⟨_, u', t'⟩ ⟨rfl, rfl, -, -⟩ b; rfl
  next := by
    rintro ⟨_, u, t⟩ ⟨_, u', t'⟩ ⟨rfl, rfl, hcontext, htotal⟩ b
    simp only at hcontext htotal
    subst hcontext htotal
    refine ⟨rfl, rfl, ?_, rfl⟩
    simp only [convertIoWrite, recordPieces, sha1Updates_snoc]
    rfl

/-- Pieces, and the bytes that they are. -/
structure PiecesBytes (w : Writer (List Bytes)) (w' : Writer Bytes) : Prop where
  left : w.transfer = recordPieces
  right : w'.transfer = sha1ConvertContextWrite
  bytes : w'.userData = w.userData.flatten
  total : w.total = w'.total

theorem piecesBytes_sim : WriteSim PiecesBytes where
  left := by rintro ⟨_, u, t⟩ ⟨_, u', t'⟩ ⟨rfl, rfl, -, -⟩ b; rfl
  right := by rintro ⟨_, u, t⟩ ⟨_, u', t'⟩ ⟨rfl, rfl, -, -⟩ b; rfl
  next := by
    rintro ⟨_, u, t⟩ ⟨_, u', t'⟩ ⟨rfl, rfl, hbytes, htotal⟩ b
    simp only at hbytes htotal
    subst hbytes htotal
    exact ⟨rfl, rfl, by simp [convertIoWrite, recordPieces, sha1ConvertContextWrite], rfl⟩

/-- The environment whose hash function is SHA-1. -/
def Env.HashesWithSha1 (E : Env) : Prop := ∀ b, (E.sha1 b).val = Sha1.digest b

theorem Env.HashesWithSha1.eq {E : Env} (h : E.HashesWithSha1) (b : Bytes) :
    E.sha1 b = ⟨Sha1.digest b, Sha1.digest_length b⟩ := Subtype.ext (h b)

variable {E : Env}

/-- `convert_file_hash` on contexts: the hash of the pieces. -/
theorem convertFileHashCtx_pieces (hE : E.zlib.Fits) (stack : Sha1Ctx) (d : Bytes) (flags : ConvertFlags) :
    convertFileHashCtx E stack d flags =
      (do let (_, w) ← runConversion E ⟨fileConvertContextRead, d, 0⟩ ⟨recordPieces, [], 0⟩ flags
          return ⟨UInt32.ofNat w.total, hashtypeSha1, ⟨Sha1.digest w.userData.flatten, Sha1.digest_length _⟩⟩) := by
  have hw : ContextPieces stack ⟨sha1ConvertContextUpdate.sink, sha1Init stack, 0⟩ ⟨recordPieces, [], 0⟩ :=
    ⟨rfl, rfl, rfl, rfl⟩
  have hsim := runConversion_sim sameReader_sim (contextPieces_sim stack) E (r := ⟨fileConvertContextRead, d, 0⟩) rfl hw
    flags
  refine hsim.bind_eq ?_
  rintro ⟨r, w⟩ ⟨r', w'⟩ - hrun ⟨-, -, -, hcontext, htotal⟩
  have hsmall := (runConversion_kept fileReads_kept recordPieces_kept hE hrun rfl ⟨rfl, by simp [SmallPieces]⟩).2.2
  simp only at hcontext htotal
  simp only [hcontext, htotal, hsmall.final stack]
  rfl

/-- **`convert_file_hash` computes the SHA-1 of what the conversion puts out.** -/
theorem convertFileHashCtx_eq (hE : E.zlib.Fits) (hsha : E.HashesWithSha1) (stack : Sha1Ctx) (d : Bytes)
    (flags : ConvertFlags) : convertFileHashCtx E stack d flags = convertFileHash E d flags := by
  have hw : PiecesBytes ⟨recordPieces, [], 0⟩ ⟨sha1ConvertContextWrite, [], 0⟩ := ⟨rfl, rfl, rfl, rfl⟩
  have hsim := runConversion_sim sameReader_sim piecesBytes_sim E (r := ⟨fileConvertContextRead, d, 0⟩) rfl hw flags
  rw [convertFileHashCtx_pieces hE]
  refine hsim.bind_eq ?_
  rintro ⟨r, w⟩ ⟨r', w'⟩ - - ⟨-, -, -, hbytes, htotal⟩
  simp only at hbytes htotal
  simp only [← hbytes, htotal, hsha.eq]

/-! ## Files that are hashed on their way -/

/-- A file whose blocks also update a context, and one whose blocks are kept. -/
structure DuplicatePieces (stack : Sha1Ctx) (r : Reader (Bytes × Sha1Ctx)) (r' : Reader (Bytes × List Bytes)) : Prop where
  left : r.transfer = duplicateConvertIoReadBuffer fileConvertContextRead sha1ConvertContextUpdate
  right : r'.transfer = duplicateConvertIoRead fileConvertContextRead recordPieces
  rest : r.userData.1 = r'.userData.1
  context : r.userData.2 = sha1Updates (sha1Init stack) r'.userData.2

theorem duplicatePieces_sim (stack : Sha1Ctx) : ReadSim (DuplicatePieces stack) where
  left := by rintro ⟨_, ⟨x, u⟩, t⟩ ⟨_, ⟨x', u'⟩, t'⟩ ⟨rfl, rfl, rfl, -⟩; rfl
  block := by rintro ⟨_, ⟨x, u⟩, t⟩ ⟨_, ⟨x', u'⟩, t'⟩ ⟨rfl, rfl, rfl, -⟩ n; rfl
  next := by
    rintro ⟨_, ⟨x, u⟩, t⟩ ⟨_, ⟨x', u'⟩, t'⟩ ⟨rfl, rfl, rfl, hcontext⟩ n
    simp only at hcontext
    subst hcontext
    refine ⟨rfl, rfl, rfl, ?_⟩
    simp only [convertIoRead, duplicateConvertIoRead, recordPieces, sha1Updates_snoc]
    rfl

/-- A file whose blocks are kept, and one whose bytes are. -/
structure DuplicateBytes (r : Reader (Bytes × List Bytes)) (r' : Reader (Bytes × Bytes)) : Prop where
  left : r.transfer = duplicateConvertIoRead fileConvertContextRead recordPieces
  right : r'.transfer = duplicateConvertIoRead fileConvertContextRead sha1ConvertContextWrite
  rest : r.userData.1 = r'.userData.1
  bytes : r'.userData.2 = r.userData.2.flatten

theorem duplicateBytes_sim : ReadSim DuplicateBytes where
  left := by rintro ⟨_, ⟨x, u⟩, t⟩ ⟨_, ⟨x', u'⟩, t'⟩ ⟨rfl, rfl, rfl, -⟩; rfl
  block := by rintro ⟨_, ⟨x, u⟩, t⟩ ⟨_, ⟨x', u'⟩, t'⟩ ⟨rfl, rfl, rfl, -⟩ n; rfl
  next := by
    rintro ⟨_, ⟨x, u⟩, t⟩ ⟨_, ⟨x', u'⟩, t'⟩ ⟨rfl, rfl, rfl, hbytes⟩ n
    simp only at hbytes
    subst hbytes
    exact ⟨rfl, rfl, rfl, by simp [convertIoRead, duplicateConvertIoRead, recordPieces, sha1ConvertContextWrite]⟩

theorem duplicateReads_kept : KeptByReads fun r =>
    r.transfer = duplicateConvertIoRead fileConvertContextRead recordPieces ∧ SmallPieces r.userData.2 where
  next := by
    rintro ⟨_, ⟨d, pieces⟩, total⟩ ⟨rfl, h⟩
    exact ⟨rfl, h.snoc (List.length_take_le _ _)⟩
  small := by
    rintro ⟨_, ⟨d, pieces⟩, total⟩ ⟨rfl, -⟩
    exact List.length_take_le _ _

/-- A sink that counts. -/
theorem null_sim : WriteSim fun w w' : Writer Unit => w = w' ∧ w.transfer = nullConvertContextWrite where
  left := by rintro ⟨_, u, t⟩ _ ⟨rfl, rfl⟩ b; rfl
  right := by rintro ⟨_, u, t⟩ _ ⟨rfl, rfl⟩ b; rfl
  next := by rintro ⟨_, u, t⟩ _ ⟨rfl, rfl⟩ b; exact ⟨rfl, rfl⟩

/-- `convert_file_zsize_hash` on contexts: the hash of the pieces. -/
theorem convertFileZsizeHashCtx_pieces (hE : E.zlib.Fits) (stack : Sha1Ctx) (d : Bytes) (hash : SfmfFileHash)
    (wantZsize : Bool) : convertFileZsizeHashCtx E stack d hash wantZsize =
      (do let (r, w) ← runConversion E
            ⟨duplicateConvertIoRead fileConvertContextRead recordPieces, (d, []), 0⟩
            ⟨nullConvertContextWrite, (), 0⟩ (if wantZsize then .zcompress else .none)
          let digest := ⟨Sha1.digest r.userData.2.flatten, Sha1.digest_length _⟩
          let hash := { hash with hashtype := hashtypeSha1, hash := digest }
          if wantZsize then return (hash, some (UInt32.ofNat w.total))
          else return ({ hash with size := UInt32.ofNat w.total }, none)) := by
  have hr : DuplicatePieces stack
      ⟨duplicateConvertIoReadBuffer fileConvertContextRead sha1ConvertContextUpdate, (d, sha1Init stack), 0⟩
      ⟨duplicateConvertIoRead fileConvertContextRead recordPieces, (d, []), 0⟩ := ⟨rfl, rfl, rfl, rfl⟩
  have hsim := runConversion_sim (duplicatePieces_sim stack) null_sim E hr
    (w := ⟨nullConvertContextWrite, (), 0⟩) ⟨rfl, rfl⟩ (if wantZsize then .zcompress else .none)
  refine hsim.bind_eq ?_
  rintro ⟨r, w⟩ ⟨r', w'⟩ - hrun ⟨⟨-, -, -, hcontext⟩, rfl, -⟩
  have hsmall := (runConversion_kept (T := fun _ => True) duplicateReads_kept (fun _ _ _ _ => trivial) hE hrun
    ⟨rfl, by simp [SmallPieces]⟩ trivial).1.2
  simp only at hcontext
  simp only [hcontext, hsmall.final stack]
  rfl

/-- **`convert_file_zsize_hash` computes the SHA-1 of the file**, and zlib gets the same bytes. -/
theorem convertFileZsizeHashCtx_eq (hE : E.zlib.Fits) (hsha : E.HashesWithSha1) (stack : Sha1Ctx) (d : Bytes)
    (hash : SfmfFileHash) (wantZsize : Bool) :
    convertFileZsizeHashCtx E stack d hash wantZsize = convertFileZsizeHash E d hash wantZsize := by
  have hr : DuplicateBytes ⟨duplicateConvertIoRead fileConvertContextRead recordPieces, (d, []), 0⟩
      ⟨duplicateConvertIoRead fileConvertContextRead sha1ConvertContextWrite, (d, []), 0⟩ := ⟨rfl, rfl, rfl, rfl⟩
  have hsim := runConversion_sim duplicateBytes_sim null_sim E hr
    (w := ⟨nullConvertContextWrite, (), 0⟩) ⟨rfl, rfl⟩ (if wantZsize then .zcompress else .none)
  rw [convertFileZsizeHashCtx_pieces hE]
  refine hsim.bind_eq ?_
  rintro ⟨r, w⟩ ⟨r', w'⟩ - - ⟨⟨-, -, -, hbytes⟩, rfl, -⟩
  simp only at hbytes
  simp only [← hbytes, hsha.eq]

/-- `SHA1` of `fileentry.c`, for the target of a symbolic link. -/
theorem sha1Buffer_eq {buf : Bytes} (h : buf.length < 2 ^ 29) :
    sha1Buffer buf = .ok ⟨Sha1.digest buf, Sha1.digest_length buf⟩ := by
  have hfinal := @sha1Final_digest ⟨⟨0, 0, 0, 0, 0⟩, 0, 0, Buffer64.zero⟩ [buf] (by simpa using h)
  simp only [sha1Updates, List.foldl_cons, List.foldl_nil, List.flatten_singleton] at hfinal
  simp only [sha1Buffer, hfinal]
  rfl

/-- **The hashes of a file**, on contexts of `sha1.c`: what is hashed is cut into blocks, and `SHA1_Update` writes to what it
is given, but the hash is the SHA-1 of all the bytes, and what goes on to zlib is unchanged. -/
theorem hashes_with_contexts (hE : E.zlib.Fits) (hsha : E.HashesWithSha1) (stack : Sha1Ctx) (d : Bytes) :
    (∀ flags, convertFileHashCtx E stack d flags = convertFileHash E d flags) ∧
      (∀ hash wantZsize, convertFileZsizeHashCtx E stack d hash wantZsize = convertFileZsizeHash E d hash wantZsize) ∧
      (∀ buf : Bytes, buf.length < 2 ^ 29 → sha1Buffer buf = .ok (E.sha1 buf)) ∧
      convertFileHashCtx E stack d .none =
        .ok ⟨UInt32.ofNat d.length, hashtypeSha1, ⟨Sha1.digest d, Sha1.digest_length d⟩⟩ := by
  refine ⟨convertFileHashCtx_eq hE hsha stack d, convertFileZsizeHashCtx_eq hE hsha stack d, fun buf hbuf => ?_, ?_⟩
  · rw [sha1Buffer_eq hbuf, hsha.eq]
  · rw [convertFileHashCtx_eq hE hsha, convertFileHash_eq, converted_none]
    simp [hsha.eq]

theorem fits_ofTransducer (T : Transducer UInt8 UInt8) (encode : Bytes → Bytes) :
    (Zlib.ofTransducer T encode).Fits where
  deflate s x n f := by
    cases f with
    | noFlush => exact Nat.zero_le n
    | finish => exact List.length_take_le _ _
  inflate s x n _ := Transducer.pull_fits s x n

/-- An environment with streams for all data, and SHA-1. -/
def sha1Env : Env := { coderEnv with sha1 := fun b => ⟨Sha1.digest b, Sha1.digest_length b⟩ }

theorem hashes_with_contexts_letters :
    convertFileHashCtx sha1Env wipedCtx letters .none =
      .ok ⟨32, hashtypeSha1, ⟨Sha1.digest letters, Sha1.digest_length letters⟩⟩ :=
  (hashes_with_contexts (E := sha1Env) (fits_ofTransducer _ _) (fun _ => rfl) wipedCtx letters).2.2.2

end Sfmf

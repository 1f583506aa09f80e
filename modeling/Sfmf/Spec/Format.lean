import Sfmf.Lib.Exec
import Sfmf.Lib.Bytes

/-!
# The records of manifests and packs (`common/sfmf.h`, `sfmf.c`, `sfpf.h`, `sfpf.c`)

Each structure of the two file formats, its bytes as the `_write` function puts
them (all integers in network byte order), and the value the `_read` function
gets back. `decode_encode` of a record is the round trip of its pair of
functions.

Then the operations on a file hash: `sfmf_filehash_format` and
`sfmf_filehash_compare`.
-/

namespace Sfmf

/-! ## Fields -/

/-- `htonl` of a field, in memory. -/
def put32 (x : UInt32) : Bytes := be 4 x.toNat

/-- `ntohl` of the field in front, and what follows it. -/
def get32 (b : Bytes) : UInt32 × Bytes := (UInt32.ofNat (ofBe (b.take 4)), b.drop 4)

/-- `htobe64` of a field, in memory. -/
def put64 (x : UInt64) : Bytes := be 8 x.toNat

/-- `be64toh` of the field in front, and what follows it. -/
def get64 (b : Bytes) : UInt64 × Bytes := (UInt64.ofNat (ofBe (b.take 8)), b.drop 8)

/-- `SFMF_MAX_HASHSIZE`. -/
def sfmfMaxHashsize : ℕ := 20

/-- A hash value, `unsigned char hash[SFMF_MAX_HASHSIZE]`. -/
abbrev Digest := { b : Bytes // b.length = sfmfMaxHashsize }

/-- The hash array in front, and what follows it. -/
def getDigest (b : Bytes) : Digest × Bytes :=
  (⟨(b ++ List.replicate sfmfMaxHashsize 0).take sfmfMaxHashsize, by simp⟩, b.drop sfmfMaxHashsize)

@[simp] theorem put32_length (x : UInt32) : (put32 x).length = 4 := be_length _ _

@[simp] theorem put64_length (x : UInt64) : (put64 x).length = 8 := be_length _ _

@[simp] theorem get32_put32 (x : UInt32) (r : Bytes) : get32 (put32 x ++ r) = (x, r) := by
  unfold get32
  rw [List.take_left' (put32_length x), List.drop_left' (put32_length x)]
  simp [put32, ofBe_be (k := 4) x.toNat_lt]

@[simp] theorem get32_put32_nil (x : UInt32) : get32 (put32 x) = (x, []) := by
  simpa using get32_put32 x []

@[simp] theorem get64_put64 (x : UInt64) (r : Bytes) : get64 (put64 x ++ r) = (x, r) := by
  unfold get64
  rw [List.take_left' (put64_length x), List.drop_left' (put64_length x)]
  simp [put64, ofBe_be (k := 8) x.toNat_lt]

@[simp] theorem getDigest_val (h : Digest) (r : Bytes) : getDigest (h.val ++ r) = (h, r) := by
  refine Prod.ext (Subtype.ext ?_) (List.drop_left' h.2)
  simp only [getDigest]
  rw [List.append_assoc, List.take_left' h.2]

@[simp] theorem getDigest_val_nil (h : Digest) : getDigest h.val = (h, []) := by
  simpa using getDigest_val h []

/-! ## Constants -/

/-- `SFMF_MAGIC_NUMBER`. -/
def sfmfMagicNumber : UInt32 :=
  ((0x53 : UInt32) <<< 24) ||| ((0x46 : UInt32) <<< 16) ||| ((0x4d : UInt32) <<< 8) ||| 0x46

/-- `SFMF_CURRENT_VERSION`. -/
def sfmfCurrentVersion : UInt32 := 1

/-- `SFPF_MAGIC_NUMBER`. -/
def sfpfMagicNumber : UInt32 :=
  ((0x53 : UInt32) <<< 24) ||| ((0x46 : UInt32) <<< 16) ||| ((0x50 : UInt32) <<< 8) ||| 0x46

/-- `SFPF_CURRENT_VERSION`. -/
def sfpfCurrentVersion : UInt32 := 1

/-- `enum SFMF_FileEntry_Type`. A manifest can hold any number in its place. -/
abbrev EntryType := UInt32

def entryUnknown : EntryType := 0
def entryDirectory : EntryType := 1
def entryFile : EntryType := 2
def entrySymlink : EntryType := 3
def entryCharacter : EntryType := 4
def entryFifo : EntryType := 5
def entryHardlink : EntryType := 6
def entryBlock : EntryType := 7

/-- `enum SFMF_FileEntry_HashType`. -/
abbrev HashType := UInt32

def hashtypeUnknown : HashType := 0
def hashtypeSha1 : HashType := 1
def hashtypeLazy : HashType := 2

/-- `enum SFMF_BlobEntry_Flag`. -/
abbrev BlobFlag := UInt32

def blobFlagNone : BlobFlag := 0
def blobFlagZcompressed : BlobFlag := (1 : UInt32) <<< 0

/-- The test `(flags & BLOB_FLAG_ZCOMPRESSED) != 0`. -/
def isZcompressed (flags : BlobFlag) : Bool := flags &&& blobFlagZcompressed ≠ 0

/-! ## Records -/

/-- `struct SFMF_FileHeader`. -/
structure SfmfFileHeader where
  magic : UInt32
  version : UInt32
  metadataSize : UInt32
  filenameTableSize : UInt32
  entriesLength : UInt32
  packsLength : UInt32
  blobsLength : UInt32
  deriving DecidableEq, Repr

/-- `sizeof(struct SFMF_FileHeader)`. -/
def sfmfFileHeaderSize : ℕ := 28

/-- The bytes `sfmf_fileheader_write` writes. -/
def SfmfFileHeader.encode (h : SfmfFileHeader) : Bytes :=
  put32 h.magic ++ (put32 h.version ++ (put32 h.metadataSize ++ (put32 h.filenameTableSize ++
    (put32 h.entriesLength ++ (put32 h.packsLength ++ put32 h.blobsLength)))))

/-- The header `sfmf_fileheader_read` gets from these bytes. -/
def SfmfFileHeader.decode (b : Bytes) : SfmfFileHeader :=
  let (magic, b) := get32 b
  let (version, b) := get32 b
  let (metadataSize, b) := get32 b
  let (filenameTableSize, b) := get32 b
  let (entriesLength, b) := get32 b
  let (packsLength, b) := get32 b
  let (blobsLength, _) := get32 b
  ⟨magic, version, metadataSize, filenameTableSize, entriesLength, packsLength, blobsLength⟩

@[simp] theorem SfmfFileHeader.encode_length (h : SfmfFileHeader) :
    h.encode.length = sfmfFileHeaderSize := by simp [encode, sfmfFileHeaderSize]

@[simp] theorem SfmfFileHeader.decode_encode (h : SfmfFileHeader) : decode h.encode = h := by
  simp [decode, encode]

/-- `struct SFMF_FileHash`. -/
structure SfmfFileHash where
  /-- file size in bytes (not hash size) -/
  size : UInt32
  hashtype : HashType
  hash : Digest
  deriving DecidableEq, Repr

/-- `sizeof(struct SFMF_FileHash)`. -/
def sfmfFileHashSize : ℕ := 28

/-- A hash cleared by `memset`. -/
def SfmfFileHash.zero : SfmfFileHash := ⟨0, hashtypeUnknown, ⟨List.replicate sfmfMaxHashsize 0, by simp⟩⟩

/-- The bytes `sfmf_filehash_write` writes. -/
def SfmfFileHash.encode (h : SfmfFileHash) : Bytes := put32 h.size ++ (put32 h.hashtype ++ h.hash.val)

/-- A hash in front of a byte string, and what follows it. -/
def getHash (b : Bytes) : SfmfFileHash × Bytes :=
  let (size, b) := get32 b
  let (hashtype, b) := get32 b
  let (hash, b) := getDigest b
  (⟨size, hashtype, hash⟩, b)

/-- The hash `sfmf_filehash_read` gets from these bytes. -/
def SfmfFileHash.decode (b : Bytes) : SfmfFileHash := (getHash b).1

@[simp] theorem SfmfFileHash.encode_length (h : SfmfFileHash) : h.encode.length = sfmfFileHashSize := by
  simp [encode, h.hash.2, sfmfFileHashSize, sfmfMaxHashsize]

@[simp] theorem getHash_encode (h : SfmfFileHash) (r : Bytes) : getHash (h.encode ++ r) = (h, r) := by
  simp [getHash, SfmfFileHash.encode]

@[simp] theorem SfmfFileHash.decode_encode (h : SfmfFileHash) : decode h.encode = h := by
  simpa [decode] using congrArg Prod.fst (getHash_encode h [])

/-- `struct SFMF_FileEntry`. -/
structure SfmfFileEntry where
  type : EntryType
  mode : UInt32
  uid : UInt32
  gid : UInt32
  /-- mtime as unix timestamp -/
  mtime : UInt64
  /-- the device node value, or the index of the link source of an `ENTRY_HARDLINK` -/
  dev : UInt32
  /-- compressed file size in bytes -/
  zsize : UInt32
  hash : SfmfFileHash
  filenameOffset : UInt32
  deriving DecidableEq, Repr

/-- `sizeof(struct SFMF_FileEntry)`. -/
def sfmfFileEntrySize : ℕ := 64

/-- An entry cleared by `calloc`. -/
def SfmfFileEntry.zero : SfmfFileEntry := ⟨entryUnknown, 0, 0, 0, 0, 0, 0, .zero, 0⟩

/-- The bytes `sfmf_fileentry_write` writes. -/
def SfmfFileEntry.encode (e : SfmfFileEntry) : Bytes :=
  put32 e.type ++ (put32 e.mode ++ (put32 e.uid ++ (put32 e.gid ++ (put64 e.mtime ++ (put32 e.dev ++
    (put32 e.zsize ++ (e.hash.encode ++ put32 e.filenameOffset)))))))

/-- The entry `sfmf_fileentry_read` gets from these bytes. -/
def SfmfFileEntry.decode (b : Bytes) : SfmfFileEntry :=
  let (type, b) := get32 b
  let (mode, b) := get32 b
  let (uid, b) := get32 b
  let (gid, b) := get32 b
  let (mtime, b) := get64 b
  let (dev, b) := get32 b
  let (zsize, b) := get32 b
  let (hash, b) := getHash b
  let (filenameOffset, _) := get32 b
  ⟨type, mode, uid, gid, mtime, dev, zsize, hash, filenameOffset⟩

@[simp] theorem SfmfFileEntry.encode_length (e : SfmfFileEntry) :
    e.encode.length = sfmfFileEntrySize := by simp [encode, sfmfFileEntrySize, sfmfFileHashSize]

@[simp] theorem SfmfFileEntry.decode_encode (e : SfmfFileEntry) : decode e.encode = e := by
  simp [decode, encode]

/-- `struct SFMF_PackEntry`. -/
structure SfmfPackEntry where
  /-- hash of the pack (size = download size in bytes) -/
  hash : SfmfFileHash
  /-- absolute file offset of the first file hash of this pack -/
  offset : UInt32
  /-- number of file hashes contained in this pack -/
  count : UInt32
  deriving DecidableEq, Repr

/-- `sizeof(struct SFMF_PackEntry)`. -/
def sfmfPackEntrySize : ℕ := 36

/-- An entry cleared by `calloc`. -/
def SfmfPackEntry.zero : SfmfPackEntry := ⟨.zero, 0, 0⟩

/-- The bytes `sfmf_packentry_write` writes. -/
def SfmfPackEntry.encode (e : SfmfPackEntry) : Bytes := e.hash.encode ++ (put32 e.offset ++ put32 e.count)

/-- The entry `sfmf_packentry_read` gets from these bytes. -/
def SfmfPackEntry.decode (b : Bytes) : SfmfPackEntry :=
  let (hash, b) := getHash b
  let (offset, b) := get32 b
  let (count, _) := get32 b
  ⟨hash, offset, count⟩

@[simp] theorem SfmfPackEntry.encode_length (e : SfmfPackEntry) :
    e.encode.length = sfmfPackEntrySize := by simp [encode, sfmfPackEntrySize, sfmfFileHashSize]

@[simp] theorem SfmfPackEntry.decode_encode (e : SfmfPackEntry) : decode e.encode = e := by
  simp [decode, encode]

/-- `struct SFMF_BlobEntry`. -/
structure SfmfBlobEntry where
  /-- hash of the blob and uncompressed file size -/
  hash : SfmfFileHash
  flags : BlobFlag
  /-- absolute file offset of the start of the blob data -/
  offset : UInt32
  /-- number of bytes for this blob (in the file) -/
  size : UInt32
  deriving DecidableEq, Repr

/-- `sizeof(struct SFMF_BlobEntry)`. -/
def sfmfBlobEntrySize : ℕ := 40

/-- An entry cleared by `calloc`. -/
def SfmfBlobEntry.zero : SfmfBlobEntry := ⟨.zero, blobFlagNone, 0, 0⟩

/-- The bytes `sfmf_blobentry_write` writes. -/
def SfmfBlobEntry.encode (e : SfmfBlobEntry) : Bytes :=
  e.hash.encode ++ (put32 e.flags ++ (put32 e.offset ++ put32 e.size))

/-- The entry `sfmf_blobentry_read` gets from these bytes. -/
def SfmfBlobEntry.decode (b : Bytes) : SfmfBlobEntry :=
  let (hash, b) := getHash b
  let (flags, b) := get32 b
  let (offset, b) := get32 b
  let (size, _) := get32 b
  ⟨hash, flags, offset, size⟩

@[simp] theorem SfmfBlobEntry.encode_length (e : SfmfBlobEntry) :
    e.encode.length = sfmfBlobEntrySize := by simp [encode, sfmfBlobEntrySize, sfmfFileHashSize]

@[simp] theorem SfmfBlobEntry.decode_encode (e : SfmfBlobEntry) : decode e.encode = e := by
  simp [decode, encode]

/-- `struct SFPF_FileHeader`. -/
structure SfpfFileHeader where
  magic : UInt32
  version : UInt32
  metadataSize : UInt32
  blobsLength : UInt32
  deriving DecidableEq, Repr

/-- `sizeof(struct SFPF_FileHeader)`. -/
def sfpfFileHeaderSize : ℕ := 16

/-- The bytes `sfpf_fileheader_write` writes. -/
def SfpfFileHeader.encode (h : SfpfFileHeader) : Bytes :=
  put32 h.magic ++ (put32 h.version ++ (put32 h.metadataSize ++ put32 h.blobsLength))

/-- The header `sfpf_fileheader_read` gets from these bytes. -/
def SfpfFileHeader.decode (b : Bytes) : SfpfFileHeader :=
  let (magic, b) := get32 b
  let (version, b) := get32 b
  let (metadataSize, b) := get32 b
  let (blobsLength, _) := get32 b
  ⟨magic, version, metadataSize, blobsLength⟩

@[simp] theorem SfpfFileHeader.encode_length (h : SfpfFileHeader) :
    h.encode.length = sfpfFileHeaderSize := by simp [encode, sfpfFileHeaderSize]

@[simp] theorem SfpfFileHeader.decode_encode (h : SfpfFileHeader) : decode h.encode = h := by
  simp [decode, encode]

/-! ## Operations on hashes -/

/-- A lower-case hexadecimal digit, as `%x` prints it. -/
def hexDigit (n : ℕ) : UInt8 := UInt8.ofNat (if n < 10 then 48 + n else 87 + n)

/-- `sprintf(buf, "%02x", b)`. -/
def hexByte (b : UInt8) : Bytes := [hexDigit (b.toNat / 16), hexDigit (b.toNat % 16)]

/-- `sfmf_filehash_format`. Every caller passes a buffer that is large enough. -/
def sfmfFilehashFormat (h : SfmfFileHash) : Exec Bytes := do
  cAssert (h.hashtype = hashtypeSha1) "hash->hashtype == HASHTYPE_SHA1"
  return h.hash.val.flatMap hexByte

/-- `sfmf_filehash_compare(a, b) == 0`. -/
def sfmfFilehashCompare (a b : SfmfFileHash) : Exec Bool := do
  cAssert (a.hashtype = hashtypeSha1 ∧ b.hashtype = hashtypeSha1)
    "a->hashtype == HASHTYPE_SHA1 && b->hashtype == HASHTYPE_SHA1"
  return a.size = b.size ∧ a.hash = b.hash

theorem sfmfFilehashCompare_ok {a b : SfmfFileHash} {r : Bool} :
    sfmfFilehashCompare a b = .ok r ↔
      a.hashtype = hashtypeSha1 ∧ b.hashtype = hashtypeSha1 ∧ r = decide (a = b) := by
  obtain ⟨s, t, h⟩ := a
  obtain ⟨s', t', h'⟩ := b
  simp only [sfmfFilehashCompare, bind_ok, cAssert_ok, exists_const, pure_eq_ok, Except.ok.injEq,
    SfmfFileHash.mk.injEq]
  constructor
  · rintro ⟨⟨rfl, rfl⟩, rfl⟩; simp
  · rintro ⟨rfl, rfl, rfl⟩; simp

theorem sfmfFilehashCompare_eq {a b : SfmfFileHash} (ha : a.hashtype = hashtypeSha1)
    (hb : b.hashtype = hashtypeSha1) : sfmfFilehashCompare a b = .ok (decide (a = b)) :=
  sfmfFilehashCompare_ok.2 ⟨ha, hb, rfl⟩

theorem sfmfFilehashFormat_ok {h : SfmfFileHash} {b : Bytes} :
    sfmfFilehashFormat h = .ok b ↔ h.hashtype = hashtypeSha1 ∧ b = h.hash.val.flatMap hexByte := by
  simp only [sfmfFilehashFormat, bind_ok, cAssert_ok, exists_const, pure_eq_ok, Except.ok.injEq]
  rw [eq_comm (a := b)]

/-- The value of a hexadecimal digit. -/
def hexValue (c : UInt8) : ℕ := if c.toNat < 58 then c.toNat - 48 else c.toNat - 87

theorem hexValue_hexDigit {n : ℕ} (h : n < 16) : hexValue (hexDigit n) = n := by
  interval_cases n <;> decide

theorem hexByte_inj {a b : UInt8} (h : hexByte a = hexByte b) : a = b := by
  simp only [hexByte, List.cons.injEq, and_true] at h
  have h1 := congrArg hexValue h.1
  have h2 := congrArg hexValue h.2
  have ha := a.toNat_lt
  have hb := b.toNat_lt
  rw [hexValue_hexDigit (by omega), hexValue_hexDigit (by omega)] at h1
  rw [hexValue_hexDigit (by omega), hexValue_hexDigit (by omega)] at h2
  exact UInt8.toNat_inj.1 (by omega)

/-- **A formatted hash determines the hash value.** -/
theorem hex_inj : ∀ {a b : Bytes}, a.flatMap hexByte = b.flatMap hexByte → a = b
  | [], [], _ => rfl
  | [], _ :: _, h => by simp [hexByte] at h
  | _ :: _, [], h => by simp [hexByte] at h
  | x :: a, y :: b, h => by
    simp only [List.flatMap_cons] at h
    obtain ⟨h1, h2⟩ := List.append_inj h rfl
    rw [hexByte_inj h1, hex_inj h2]

end Sfmf

import Sfmf.Spec.FileEntry

/-!
# The packer (`tools/pack.c`)

From a list of files to a directory with a manifest, packs and full blobs: marking
of duplicates, the search for the cut-off size, the three buckets, first-fit
packing, and the three writers. A writer is given by the operations it makes on its
output stream (`packOps`, `manifestOps`), which `writeFile` runs.
-/

namespace Sfmf

variable (E : Env) (D : Disk)

/-! ## Duplicates -/

/-- Entries `mark_duplicates` does not look at. -/
def skipsDuplicates (e : FileEntry) : Prop :=
  e.st.stSize = 0 ∨ ¬ (sIsreg e.st.stMode ∨ sIslnk e.st.stMode)

instance (e : FileEntry) : Decidable (skipsDuplicates e) := by unfold skipsDuplicates; infer_instance

/-- The body of the inner loop of `mark_duplicates`: compare `b` with the earlier entry `a`, which
is the `i`-th. -/
def markDuplicateOf (i : ℕ) (a b : FileEntry) : Exec FileEntry := do
  if skipsDuplicates b then return b
  let same ← sfmfFilehashCompare a.hash b.hash
  if same then
    let b := { b with duplicate := true }
    if a.st.stIno = b.st.stIno then
      cAssert (sIsreg b.st.stMode) "S_ISREG(b->st.st_mode)"
      return { b with hardlinkIndex := i }
    return b
  return b

/-- The body of the outer loop of `mark_duplicates`. -/
def markDuplicatesFrom (files : List FileEntry) (i : ℕ) : Exec (List FileEntry) :=
  match files[i]? with
  | none => return files
  | some a =>
    if skipsDuplicates a then return files
    else do
      let later ← (files.drop (i + 1)).mapM (markDuplicateOf i a)
      return files.take (i + 1) ++ later

/-- `mark_duplicates`. -/
def markDuplicates (files : List FileEntry) : Exec (List FileEntry) :=
  (List.range files.length).foldlM markDuplicatesFrom files

/-! ## The cut-off size -/

/-- `get_cutoff_min_size`. -/
def getCutoffMinSize (minSize : UInt32) (entry : FileEntry) : UInt32 :=
  let size := (fileentryGetMinSize entry).toUInt32
  if size < minSize then size else minSize

/-- `get_cutoff_max_size`. -/
def getCutoffMaxSize (maxSize : UInt32) (entry : FileEntry) : UInt32 :=
  let maxSize := if entry.st.stSize > maxSize.toNat then UInt32.ofNat entry.st.stSize else maxSize
  if entry.zsize > maxSize then entry.zsize else maxSize

/-- `get_cutoff_sum`. -/
def getCutoffSum (cutoff sum : UInt32) (entry : FileEntry) : UInt32 :=
  if entry.zsize > 0 ∧ entry.zsize.toNat < entry.st.stSize ∧ entry.zsize < cutoff then sum + entry.zsize
  else if entry.st.stSize < cutoff.toNat then sum + UInt32.ofNat entry.st.stSize
  else sum

/-- The loop of `get_cutoff_size_bytes`, for at most `n` rounds. -/
def cutoffSearch (files : List FileEntry) (blobUpperBytes : UInt32) :
    ℕ → UInt32 → UInt32 → UInt32 → UInt32
  | 0, _, _, bestFit => bestFit
  | n + 1, center, width, bestFit =>
    if width > 1 then
      let sum := files.foldl (getCutoffSum center) 0
      let width := width / 2
      if sum > blobUpperBytes then cutoffSearch files blobUpperBytes n (center - width) width bestFit
      else if sum < blobUpperBytes then
        cutoffSearch files blobUpperBytes n (center + width) width (if bestFit < center then center else bestFit)
      else cutoffSearch files blobUpperBytes n center width bestFit
    else bestFit

/-- The rounds of `cutoffSearch`: a 32-bit width can be halved 32 times. -/
def cutoffRounds : ℕ := 32

/-- `get_cutoff_size_bytes`. -/
def getCutoffSizeBytes (files : List FileEntry) (blobUpperBytes : UInt32) : Exec UInt32 := do
  let minSize := files.foldl getCutoffMinSize (UInt32.ofNat (2 ^ 32 - 1))
  let maxSize := files.foldl getCutoffMaxSize 0
  cAssert (minSize < maxSize) "min_size < max_size"
  cAssert (maxSize > 0) "max_size > 0"
  return cutoffSearch files blobUpperBytes cutoffRounds ((maxSize + minSize) / 2) ((maxSize - minSize) / 2) 0

/-! ## Buckets -/

/-- `struct bucketize_context_t`. -/
structure BucketizeContext where
  includedFiles : List FileEntry
  packedFiles : List FileEntry
  unpackedFiles : List FileEntry
  blobCutoffSizeBytes : UInt32
  packUpperBytes : UInt32
  deriving DecidableEq, Repr

/-- `bucketize_list_entry`. -/
def bucketizeListEntry (context : BucketizeContext) (entry : FileEntry) : BucketizeContext :=
  let size := (fileentryGetMinSize entry).toUInt32
  if entry.duplicate then context
  else if size = 0 then context
  else if ¬ sIslnk entry.st.stMode ∧ ¬ sIsreg entry.st.stMode then context
  else if sIslnk entry.st.stMode ∨ size < context.blobCutoffSizeBytes then
    { context with includedFiles := context.includedFiles ++ [entry] }
  else if sIsreg entry.st.stMode ∧ size < context.packUpperBytes then
    { context with packedFiles := context.packedFiles ++ [entry] }
  else if sIsreg entry.st.stMode then
    { context with unpackedFiles := context.unpackedFiles ++ [entry] }
  else context

/-- `bucketize_file_list`. -/
def bucketizeFileList (files : List FileEntry) (blobCutoffSizeBytes packUpperBytes : UInt32) :
    BucketizeContext :=
  let packUpperBytes :=
    if packUpperBytes ≤ blobCutoffSizeBytes then blobCutoffSizeBytes + 1 else packUpperBytes
  files.foldl bucketizeListEntry ⟨[], [], [], blobCutoffSizeBytes, packUpperBytes⟩

/-! ## Packs -/

/-- `struct PackEntry`. -/
structure PackEntry where
  files : List FileEntry
  /-- sum of entries' current minimum size -/
  size : UInt32
  /-- size of written pack file -/
  packfileSize : UInt32
  /-- hash of packfile -/
  packfileHash : SfmfFileHash
  deriving DecidableEq, Repr

/-- `packlist_insert`, with `packlist_try_insert` on each pack: the first pack with room for the
file gets it, or a new pack does. -/
def packlistInsert (maxBinSizeBytes : UInt32) (source : FileEntry) : List PackEntry → List PackEntry
  | [] => [⟨[source], (fileentryGetMinSize source).toUInt32, 0, .zero⟩]
  | entry :: list =>
    let newSize := (fileentryGetMinSize source).toUInt32
    if entry.size + newSize ≤ maxBinSizeBytes then
      { entry with files := entry.files ++ [source], size := entry.size + newSize } :: list
    else entry :: packlistInsert maxBinSizeBytes source list

/-- `make_packs`. -/
def makePacks (packedFiles : List FileEntry) (avgPackBytes : UInt32) : List PackEntry :=
  packedFiles.foldl (fun list entry => packlistInsert avgPackBytes entry list) []

/-! ## Output files -/

/-- A directory of plain files, by their names. -/
abbrev Dir := Bytes → Option Bytes

/-- The directory with a file written to it. -/
def Dir.write (dir : Dir) (name content : Bytes) : Dir :=
  fun n => if n = name then some content else dir n

/-- The directory without a file. -/
def Dir.unlink (dir : Dir) (name : Bytes) : Dir := fun n => if n = name then none else dir n

/-- `rename`, whose result `write_pack` does not look at: without the old name, nothing happens. -/
def Dir.rename (dir : Dir) (old new : Bytes) : Dir :=
  match dir old with
  | none => dir
  | some content => (dir.unlink old).write new content

/-- The bytes of a string constant. -/
def str (s : List Char) : Bytes := s.map fun c => UInt8.ofNat c.toNat

/-- `%s.pack` of a formatted hash. -/
def makePackFilename (hash : SfmfFileHash) : Exec Bytes := do
  let tmp ← sfmfFilehashFormat hash
  return tmp ++ str ['.', 'p', 'a', 'c', 'k']

/-- `%s.blob` of a formatted hash. -/
def makeBlobFilename (hash : SfmfFileHash) : Exec Bytes := do
  let tmp ← sfmfFilehashFormat hash
  return tmp ++ str ['.', 'b', 'l', 'o', 'b']

/-- `manifest.sfmf`. -/
def manifestFilename : Bytes := str ['m', 'a', 'n', 'i', 'f', 'e', 's', 't', '.', 's', 'f', 'm', 'f']

/-- `pack.tmp`, under which a pack is written before its hash is known. -/
def packTmpFilename : Bytes := str ['p', 'a', 'c', 'k', '.', 't', 'm', 'p']

/-- What the writers use of `struct PackOptions`. -/
structure PackOptions where
  inDir : CString
  blobUpperKb : UInt32
  packUpperKb : UInt32
  avgPackKb : UInt32
  metadataBytes : Bytes
  deriving DecidableEq, Repr

/-- `write_full_blob`, to the output directory. -/
def writeFullBlob (dir : Dir) (entry : FileEntry) : Exec Dir := do
  let filename ← makeBlobFilename entry.hash
  let d ← D.openFile entry.filename "ifp != NULL"
  let minSize := fileentryGetMinSize entry
  let content ← convertFile E d (if minSize.toInt = entry.st.stSize then .none else .zcompress)
  return dir.write filename content

/-- The test `zsize == item_payload` of the writers. -/
def zcompress (entry : FileEntry) : Bool := entry.zsize = (fileentryGetMinSize entry).toUInt32

/-- A blob entry of `write_pack` and `write_manifest`. -/
def blobEntry (offset : UInt32) (entry : FileEntry) : SfmfBlobEntry :=
  ⟨entry.hash, if zcompress entry then blobFlagZcompressed else 0, offset, (fileentryGetMinSize entry).toUInt32⟩

/-- The loop that writes blob entries, with its running offset. -/
def blobEntries : UInt32 → List FileEntry → List SfmfBlobEntry
  | _, [] => []
  | offset, e :: es => blobEntry offset e :: blobEntries (offset + (fileentryGetMinSize e).toUInt32) es

/-- The operation that writes a regular file's payload. -/
def payloadOp (entry : FileEntry) : Exec StreamOp := do
  let d ← D.openFile entry.filename "infile != NULL"
  return .convertFile d (if zcompress entry then .zcompress else .none)

/-- `fwrite(b, len, 1, fp)` and `assert(res == 1)`: nothing is written of an empty item. -/
def fwriteOne (b : Bytes) : Exec StreamOp := do
  cAssert (b ≠ []) "res == 1"
  return .fwrite b

/-- The header of a pack. -/
def packHeader (opts : PackOptions) (entry : PackEntry) : SfpfFileHeader :=
  ⟨sfpfMagicNumber, sfpfCurrentVersion, UInt32.ofNat opts.metadataBytes.length, UInt32.ofNat entry.files.length⟩

/-- The size of the blob entries of a pack. -/
def packBlobSize (opts : PackOptions) (entry : PackEntry) : UInt32 :=
  (packHeader opts entry).blobsLength * UInt32.ofNat sfmfBlobEntrySize

/-- The offset of the first payload of a pack. -/
def packPayloadOffset (opts : PackOptions) (entry : PackEntry) : UInt32 :=
  UInt32.ofNat sfpfFileHeaderSize + (packHeader opts entry).metadataSize + packBlobSize opts entry

/-- What `write_pack` asserts and prints of each file when it writes the blob entries. -/
def packIndexCheck (fentry : FileEntry) : Exec Bytes := do
  cAssert (sIsreg fentry.st.stMode) "S_ISREG(fentry->st.st_mode)"
  sfmfFilehashFormat fentry.hash

/-- What `write_pack` does on its stream. -/
def packOps (opts : PackOptions) (entry : PackEntry) : Exec (List StreamOp) := do
  let metadata ← fwriteOne opts.metadataBytes
  let _ ← entry.files.mapM packIndexCheck
  let index := (blobEntries (packPayloadOffset opts entry) entry.files).map fun e => .fwrite e.encode
  let payload ← entry.files.mapM (payloadOp D)
  return [.fwrite (packHeader opts entry).encode, metadata] ++ index ++ payload

/-- `write_pack`: the pack is written to the output directory under a temporary name, its size and hash
are noted, and it gets the name that the hash gives. -/
def writePack (opts : PackOptions) (dir : Dir) (entry : PackEntry) : Exec (PackEntry × Dir) := do
  let packfileSize := packPayloadOffset opts entry + entry.size
  let ops ← packOps D opts entry
  let content ← writeFile E ops
  let dir := dir.write packTmpFilename content
  let (hash, _) ← convertFileZsizeHash E content .zero true
  let hash := { hash with size := packfileSize }
  let filename ← makePackFilename hash
  return ({ entry with packfileSize := packfileSize, packfileHash := hash }, dir.rename packTmpFilename filename)

/-! ## The manifest -/

/-- `get_file_basename`. -/
def getFileBasename (inDir : CString) (filename : CString) : Exec Bytes :=
  if filename.val = inDir.val then return str ['/']
  else do
    cAssert (filename.val.length > inDir.val.length) "strlen(filename) > strlen(opts->in_dir)"
    let result := filename.val.drop inDir.val.length
    return if result.head? ≠ some 0x2f then result.drop 1 else result

/-- The loop that adds up the sizes of the names, each with its NUL. -/
def filenameTableSize (names : List Bytes) : UInt32 :=
  names.foldl (fun size name => size + UInt32.ofNat (name.length + 1)) 0

/-- The type of an entry in the manifest. -/
def manifestEntryType (source : FileEntry) : Exec EntryType :=
  let isHardlink := source.duplicate ∧ source.hardlinkIndex ≠ -1
  let mode := source.st.stMode
  if sIsreg mode then return if isHardlink then entryHardlink else entryFile
  else if sIslnk mode then return entrySymlink
  else if sIsdir mode then return entryDirectory
  else if sIschr mode then return entryCharacter
  else if sIsblk mode then return entryBlock
  else if sIsfifo mode then return entryFifo
  else .error (.assertion "0 /* unsupported file type */")

/-- A file entry of `write_manifest`. -/
def manifestEntry (filenameOffset : UInt32) (source : FileEntry) : Exec SfmfFileEntry := do
  let type ← manifestEntryType source
  let isHardlink := source.duplicate ∧ source.hardlinkIndex ≠ -1
  return { type := type, mode := source.st.stMode, uid := source.st.stUid, gid := source.st.stGid,
           mtime := source.st.stMtime,
           dev := if isHardlink then UInt32.ofInt source.hardlinkIndex else source.st.stRdev.toUInt32,
           zsize := source.zsize, hash := source.hash, filenameOffset := filenameOffset }

/-- The loop that writes file entries, with its running offset into the table of names. -/
def manifestEntries (inDir : CString) : UInt32 → List FileEntry → Exec (List SfmfFileEntry)
  | _, [] => return []
  | filenameOffset, source :: files => do
    let entry ← manifestEntry filenameOffset source
    let filename ← getFileBasename inDir source.filename
    let entries ← manifestEntries inDir (filenameOffset + UInt32.ofNat (filename.length + 1)) files
    return entry :: entries

/-- The loop that writes pack entries, with its running offset: the entries, and the offset behind. -/
def manifestPacks : UInt32 → List PackEntry → List SfmfPackEntry × UInt32
  | offset, [] => ([], offset)
  | offset, source :: packs =>
    let entry : SfmfPackEntry := ⟨source.packfileHash, offset, UInt32.ofNat source.files.length⟩
    let (entries, offset) := manifestPacks (offset + entry.count * UInt32.ofNat sfmfFileHashSize) packs
    (entry :: entries, offset)

/-- The operation that writes the payload of an included file. -/
def manifestPayloadOp (source : FileEntry) : Exec StreamOp :=
  if sIslnk source.st.stMode then
    match D.readlink source.filename with
    | some buf => return .convertBuffer (buf.take pathMax) (if zcompress source then .zcompress else .none)
    | none => .error (.assertion "length != -1")
  else do
    cAssert (sIsreg source.st.stMode) "S_ISREG(source->st.st_mode)"
    payloadOp D source

/-- The header of a manifest. -/
def manifestHeader (opts : PackOptions) (files : List FileEntry) (names : List Bytes)
    (packs : List PackEntry) (includedFiles : List FileEntry) : SfmfFileHeader :=
  ⟨sfmfMagicNumber, sfmfCurrentVersion, UInt32.ofNat opts.metadataBytes.length, filenameTableSize names,
    UInt32.ofNat files.length, UInt32.ofNat packs.length, UInt32.ofNat includedFiles.length⟩

/-- The offset of the first hash of the first pack. -/
def manifestOffset (header : SfmfFileHeader) : UInt32 :=
  UInt32.ofNat sfmfFileHeaderSize + header.metadataSize + header.filenameTableSize +
    header.entriesLength * UInt32.ofNat sfmfFileEntrySize +
    header.packsLength * UInt32.ofNat sfmfPackEntrySize +
    header.blobsLength * UInt32.ofNat sfmfBlobEntrySize

/-- What `write_manifest` does on its stream. -/
def manifestOps (opts : PackOptions) (files : List FileEntry) (packs : List PackEntry)
    (includedFiles : List FileEntry) : Exec (List StreamOp) := do
  let names ← files.mapM fun source => getFileBasename opts.inDir source.filename
  let header := manifestHeader opts files names packs includedFiles
  let metadata ← fwriteOne opts.metadataBytes
  let entries ← manifestEntries opts.inDir 0 files
  let (packEntries, offset) := manifestPacks (manifestOffset header) packs
  let blobs := blobEntries offset includedFiles
  let hashes := packs.flatMap fun source => source.files.map fun file => file.hash
  let payload ← includedFiles.mapM (manifestPayloadOp D)
  return [.fwrite header.encode, metadata] ++ names.map (fun name => .fwrite (name ++ [0])) ++
    entries.map (fun e => .fwrite e.encode) ++ packEntries.map (fun e => .fwrite e.encode) ++
    blobs.map (fun e => .fwrite e.encode) ++ hashes.map (fun h => .fwrite h.encode) ++ payload

/-- `write_manifest`: the content of the manifest. -/
def writeManifest (opts : PackOptions) (files : List FileEntry) (packs : List PackEntry)
    (includedFiles : List FileEntry) : Exec Bytes := do
  let ops ← manifestOps D opts files packs includedFiles
  writeFile E ops

/-! ## The program -/

/-- The loop over the packs with `write_pack`. -/
def writePacks (opts : PackOptions) : Dir → List PackEntry → Exec (List PackEntry × Dir)
  | dir, [] => return ([], dir)
  | dir, entry :: packs => do
    let (entry, dir) ← writePack E D opts dir entry
    let (packs, dir) ← writePacks opts dir packs
    return (entry :: packs, dir)

/-- What `main` has put together when it writes the manifest. -/
structure Packed where
  files : List FileEntry
  buckets : BucketizeContext
  packs : List PackEntry
  manifest : Bytes
  outDir : Dir

/-- `main` from the file list on, with the metadata read and an output directory. -/
def packFiles (opts : PackOptions) (outDir : Dir) (files : List FileEntry) : Exec Packed := do
  let files ← markDuplicates files
  cAssert (files.length > 0) "files->length > 0"
  let cutoff ← getCutoffSizeBytes files (opts.blobUpperKb * 1024)
  let buckets := bucketizeFileList files cutoff (opts.packUpperKb * 1024)
  let packs := makePacks buckets.packedFiles (opts.avgPackKb * 1024)
  let outDir ← buckets.unpackedFiles.foldlM (writeFullBlob E D) outDir
  let (packs, outDir) ← writePacks E D opts outDir packs
  let manifest ← writeManifest E D opts files packs buckets.includedFiles
  return ⟨files, buckets, packs, manifest, outDir.write manifestFilename manifest⟩

/-- `main`, after the arguments: `walk` is what `nftw` visits below `in_dir`. The metadata is
zero-terminated. -/
def packMain (opts : PackOptions) (metaFile : Bytes) (outDir : Dir) (walk : List CString) : Exec Packed := do
  if opts.avgPackKb < opts.packUpperKb then failAndExit "Average pack size is smaller than upper pack limit"
  cAssert (metaFile ≠ []) "res == 1"
  let files ← getFileList E D walk
  packFiles E D { opts with metadataBytes := metaFile ++ [0] } outDir files

end Sfmf

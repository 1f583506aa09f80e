import Sfmf.Lib.FileSystem
import Sfmf.Spec.Pack

/-!
# The unpacker (`tools/unpack.c`, `common/readpack.c`, `common/dirstack.c`)

The run of `sfmf-unpack` in its phases: fetch the manifest into the cache, read it,
index the local sources, classify the entries, download what they need, write
them, and set their permissions. An abort over D-Bus and what is undone on a
failed exit are left out: such a run does not succeed.

The cache directory is a directory of plain files, keyed by their names in it; the
output is a file system with a naming of its paths. Payload that is looked for
beside the manifest comes from a `PayloadSource`.
-/

namespace Sfmf

variable (E : Env)

/-! ## Packs -/

/-- `get_blob_from_pack`, from a pack with content `d`: the blob and its flags. -/
def getBlobFromPack (d : Bytes) (hash : SfmfFileHash) : Exec (Option (Bytes × BlobFlag)) := do
  match fread d 0 sfpfFileHeaderSize with
  | (none, _) => .error (.assertion "res == 1")
  | (some b, pos) =>
    let header := SfpfFileHeader.decode b
    cAssert (header.magic = sfpfMagicNumber) "header.magic == SFPF_MAGIC_NUMBER"
    cAssert (header.version = sfpfCurrentVersion) "header.version == SFPF_CURRENT_VERSION"
    let (metadata, pos) := fread d pos header.metadataSize.toNat
    cAssert (metadata.isSome) "res == 1"
    let (entries, _) := readTable d sfmfBlobEntrySize SfmfBlobEntry.decode .zero header.blobsLength.toNat pos
    let found ← entries.findM? fun entry => sfmfFilehashCompare entry.hash hash
    match found with
    | none => return none
    | some entry =>
      match (fread d entry.offset.toNat entry.size.toNat).1 with
      | none => .error (.assertion "res == 1")
      | some result => return some (result, entry.flags)

/-- `write_file_from_pack`, from a pack with content `d`: the operation on the new file, if the pack
has the blob. -/
def writeFileFromPack (d : Bytes) (hash : SfmfFileHash) : Exec (Option StreamOp) := do
  let found ← getBlobFromPack d hash
  match found with
  | none => return none
  | some (data, flags) => return some (.convertBuffer data (if isZcompressed flags then .zuncompress else .none))

/-! ## The manifest that is read -/

/-- The tables of a manifest, as `main` reads them. -/
structure Manifest where
  header : SfmfFileHeader
  metadata : Bytes
  filenameTable : Bytes
  fentries : List SfmfFileEntry
  pentries : List SfmfPackEntry
  bentries : List SfmfBlobEntry
  packHashes : List (List SfmfFileHash)
  deriving DecidableEq, Repr

/-- `fread` of one item and `assert(res == 1)`. -/
def freadOne (d : Bytes) (pos n : ℕ) : Exec (Bytes × ℕ) :=
  match fread d pos n with
  | (some b, pos) => .ok (b, pos)
  | (none, _) => .error (.assertion "res == 1")

/-- The file header, with the checks of `main`, and the position behind it. -/
def readHeader (d : Bytes) : Exec (SfmfFileHeader × ℕ) := do
  let (b, pos) ← freadOne d 0 sfmfFileHeaderSize
  let header := SfmfFileHeader.decode b
  cAssert (header.magic = sfmfMagicNumber) "opts->header.magic == SFMF_MAGIC_NUMBER"
  cAssert (header.version = sfmfCurrentVersion) "opts->header.version == SFMF_CURRENT_VERSION"
  return (header, pos)

/-- The loop over the hashes of a pack. -/
def readPackHashes (d : Bytes) : ℕ → ℕ → Exec (List SfmfFileHash)
  | _, 0 => return []
  | pos, count + 1 => do
    let (b, pos) ← freadOne d pos sfmfFileHashSize
    let hashes ← readPackHashes d pos count
    return SfmfFileHash.decode b :: hashes

/-- What follows the file header. -/
def readTables (d : Bytes) (header : SfmfFileHeader) (pos : ℕ) : Exec Manifest := do
  let (metadata, pos) ← freadOne d pos header.metadataSize.toNat
  let (filenameTable, pos) ← freadOne d pos header.filenameTableSize.toNat
  let (fentries, pos) := readTable d sfmfFileEntrySize SfmfFileEntry.decode .zero header.entriesLength.toNat pos
  let (pentries, pos) := readTable d sfmfPackEntrySize SfmfPackEntry.decode .zero header.packsLength.toNat pos
  let (bentries, _) := readTable d sfmfBlobEntrySize SfmfBlobEntry.decode .zero header.blobsLength.toNat pos
  let packHashes ← pentries.mapM fun entry => readPackHashes d entry.offset.toNat entry.count.toNat
  return ⟨header, metadata, filenameTable, fentries, pentries, bentries, packHashes⟩

/-- The reads of `main`. -/
def readManifest (d : Bytes) : Exec Manifest := do
  let (header, pos) ← readHeader d
  readTables d header pos

/-- The C string at an offset of the table of names. -/
def Manifest.filenameAt (m : Manifest) (offset : UInt32) : Exec Bytes :=
  let rest := m.filenameTable.drop offset.toNat
  if (0 : UInt8) ∈ rest then .ok (rest.takeWhile (· ≠ 0)) else .error .fault

/-- The data of an included blob (`get_blob_data`), from the manifest with content `d`. -/
def getBlobData (d : Bytes) (entry : SfmfBlobEntry) : Exec Bytes :=
  match (fread d entry.offset.toNat entry.size.toNat).1 with
  | some b => .ok b
  | none => .error (.assertion "read == 1")

/-! ## Options and state -/

/-- Where `get_filename_in_source` points. -/
inductive PayloadSource where
  /-- a URL: what each file of it delivers, if it does -/
  | http (get : Bytes → Option Bytes)
  /-- a directory -/
  | directory (dir : Dir)
  /-- the cache directory itself -/
  | cache

/-- What the phases use of `struct UnpackOptions`. -/
structure UnpackOptions where
  outputdir : Bytes
  downloadOnly : Bool
  offlineMode : Bool
  source : PayloadSource
  /-- the local sources, and what `nftw` visits in each of them -/
  localDisk : Disk
  sourcedirs : List (List CString)

/-- The cache directory, `cached_files`, and the files that were downloaded, in order. -/
structure CacheState where
  cache : Dir
  cachedFiles : List Bytes
  downloads : List Bytes

/-- `struct BlobResult`. -/
inductive BlobResult where
  | invalid
  | included (entry : SfmfBlobEntry)
  | localFile (entry : FileEntry)
  | packed (entry : SfmfPackEntry)
  | full
  | empty
  | hardlink
  deriving DecidableEq, Repr

/-- `struct UnpackFileEntry`. -/
structure UnpackFileEntry where
  entry : SfmfFileEntry
  blobResult : BlobResult
  targetFilename : Bytes
  deriving DecidableEq, Repr

/-! ## Downloads -/

/-- Get a file that is not in the cache directory. -/
def fetch (source : PayloadSource) (filename : Bytes) : Exec Bytes :=
  match source with
  | .http get =>
    match get filename with
    | some d => .ok d
    | none => failAndExit "Could not download"
  | .directory dir =>
    match dir filename with
    | some d => convertFile E d .none
    | none => .error (.assertion "ifp != NULL")
  | .cache => .error (.assertion "ifp != NULL")

/-- The first part of `download_payload_file`: what is in the cache is checked, and deleted if it
does not verify. -/
def checkCached (filename : Bytes) (expectedHash : Option SfmfFileHash) (isCompressed : Bool)
    (s : CacheState) : Exec CacheState :=
  match s.cache filename, expectedHash with
  | some d, some hash =>
    if filename ∈ s.cachedFiles then return s
    else do
      let verified ← sfmfFilehashVerify E hash d isCompressed
      if verified then return { s with cachedFiles := s.cachedFiles ++ [filename] }
      else return { s with cache := s.cache.unlink filename }
  | _, _ => return s

/-- The second part of `download_payload_file`: a file that is not in the cache is fetched, and deleted
again if it does not verify. -/
def downloadMissing (source : PayloadSource) (offlineMode : Bool) (filename : Bytes)
    (expectedHash : Option SfmfFileHash) (isCompressed : Bool) (s : CacheState) :
    Exec (Option Bytes × CacheState) := do
  if offlineMode then failAndExit "Need to download, but offline mode requested."
  let content ← fetch E source filename
  let s := { s with cache := s.cache.write filename content, downloads := s.downloads ++ [filename] }
  match expectedHash with
  | none => return (some filename, { s with cachedFiles := s.cachedFiles ++ [filename] })
  | some hash =>
    let verified ← sfmfFilehashVerify E hash content isCompressed
    if verified then return (some filename, { s with cachedFiles := s.cachedFiles ++ [filename] })
    else return (none, { s with cache := s.cache.unlink filename })

/-- `download_payload_file`: the name in the cache, or nothing if the download does not verify. -/
def downloadPayloadFile (source : PayloadSource) (offlineMode : Bool) (filename : Bytes)
    (expectedHash : Option SfmfFileHash) (isCompressed : Bool) (s : CacheState) :
    Exec (Option Bytes × CacheState) := do
  let s ← checkCached E filename expectedHash isCompressed s
  match s.cache filename with
  | some _ => return (some filename, s)
  | none => downloadMissing E source offlineMode filename expectedHash isCompressed s

/-! ## Classification -/

/-- `filelist_search_blob_hash` on each local file: lazy hashes on the way are calculated. -/
def searchLocal (L : Disk) (hash : SfmfFileHash) : List FileEntry → Exec (Option FileEntry × List FileEntry)
  | [] => return (none, [])
  | entry :: list => do
    if entry.hash.size ≠ hash.size then
      let (found, list) ← searchLocal L hash list
      return (found, entry :: list)
    let entry ← if entry.hash.hashtype = hashtypeLazy then fileentryCalculateZsizeHash E L entry else pure entry
    cAssert (entry.hash.hashtype = hashtypeSha1) "entry->hash.hashtype == HASHTYPE_SHA1"
    let same ← sfmfFilehashCompare hash entry.hash
    if same then return (some entry, entry :: list)
    let (found, list) ← searchLocal L hash list
    return (found, entry :: list)

/-- `search_blob_hash`: included blobs, local files, packs, and else a full blob. -/
def searchBlobHash (L : Disk) (m : Manifest) (hash : SfmfFileHash) (localFiles : List FileEntry) :
    Exec (BlobResult × List FileEntry) := do
  let found ← m.bentries.findM? fun entry => sfmfFilehashCompare hash entry.hash
  match found with
  | some entry => return (.included entry, localFiles)
  | none =>
    let (found, localFiles) ← searchLocal E L hash localFiles
    match found with
    | some entry => return (.localFile entry, localFiles)
    | none =>
      let found ← (m.pentries.zip m.packHashes).findM? fun pack => pack.2.anyM (sfmfFilehashCompare hash)
      match found with
      | some pack => return (.packed pack.1, localFiles)
      | none => return (.full, localFiles)

/-- `unpack_classify_entry`. -/
def unpackClassifyEntry (opts : UnpackOptions) (m : Manifest) (localFiles : List FileEntry)
    (entry : SfmfFileEntry) : Exec (UnpackFileEntry × List FileEntry) := do
  let filename ← m.filenameAt entry.filenameOffset
  let target := opts.outputdir ++ filename
  if entry.hash.size > 0 then
    let _ ← sfmfFilehashFormat entry.hash
  if entry.type = entryHardlink then return (⟨entry, .hardlink, target⟩, localFiles)
  else if entry.hash.size > 0 then
    let (result, localFiles) ← searchBlobHash E opts.localDisk m entry.hash localFiles
    return (⟨entry, result, target⟩, localFiles)
  else return (⟨entry, .empty, target⟩, localFiles)

/-- `foreach_unpack_entry(opts, unpack_classify_entry)`. -/
def classifyEntries (opts : UnpackOptions) (m : Manifest) :
    List FileEntry → List SfmfFileEntry → Exec (List UnpackFileEntry × List FileEntry)
  | localFiles, [] => return ([], localFiles)
  | localFiles, entry :: entries => do
    let (e, localFiles) ← unpackClassifyEntry E opts m localFiles entry
    let (es, localFiles) ← classifyEntries opts m localFiles entries
    return (e :: es, localFiles)

/-! ## Requirements -/

/-- `entry->zsize < entry->hash.size`. -/
def isCompressed (entry : SfmfFileEntry) : Bool := entry.zsize < entry.hash.size

/-- `unpack_download_requirements`. -/
def unpackDownloadRequirements (opts : UnpackOptions) (s : CacheState) (e : UnpackFileEntry) : Exec CacheState :=
  if e.entry.type = entryFile then
    match e.blobResult with
    | .packed pack => do
      let filename ← makePackFilename pack.hash
      let (file, s) ← downloadPayloadFile E opts.source opts.offlineMode filename (some pack.hash) false s
      cAssert (file.isSome) "pack_local_filename"
      return s
    | .full => do
      let filename ← makeBlobFilename e.entry.hash
      let (file, s) ← downloadPayloadFile E opts.source opts.offlineMode filename (some e.entry.hash)
        (isCompressed e.entry) s
      cAssert (file.isSome) "blob_local_filename"
      return s
    | _ => return s
  else return s

/-! ## Writing -/

/-- The operation of `write_blob_data` on the new file, by the kind of the blob; `d` is the content
of the manifest. -/
def blobOps (opts : UnpackOptions) (d : Bytes) (cache : Dir) (entry : SfmfFileEntry) (blob : BlobResult) :
    Exec (List StreamOp) :=
  match blob with
  | .included b => do
    let data ← getBlobData d b
    return [.convertBuffer data (if isZcompressed b.flags then .zuncompress else .none)]
  | .localFile f => do
    let data ← opts.localDisk.openFile f.filename "in != NULL"
    return [.convertFile data .none]
  | .packed pack => do
    let filename ← makePackFilename pack.hash
    match cache filename with
    | none => .error (.assertion "pack_local_filename && file_exists(pack_local_filename)")
    | some content =>
      let op ← writeFileFromPack content entry.hash
      match op with
      | none => .error (.assertion "res")
      | some op => return [op]
  | .full => do
    let filename ← makeBlobFilename entry.hash
    match cache filename with
    | none => .error (.assertion "blob_local_filename && file_exists(blob_local_filename)")
    | some content => return [.convertFile content (if isCompressed entry then .zuncompress else .none)]
  | .empty => return []
  | _ => .error (.assertion "0")

/-- A call that fails ends the program. -/
def orExit {α : Type} (msg : String) : Except Errno α → Exec α
  | .ok a => .ok a
  | .error _ => failAndExit msg

section Output

variable {Loc : Type} [DecidableEq Loc] (N : Naming Loc)

/-- `write_blob_data`: the file is written, and then read back and checked. -/
def writeBlobData (opts : UnpackOptions) (d : Bytes) (cache : Dir) (fs : FS Loc) (e : UnpackFileEntry) :
    Exec (FS Loc) := do
  let l := N.resolve e.targetFilename
  let (fs, i) ← orExit "Failed to create" (fs.openWrite (N.parent l) l)
  let ops ← blobOps opts d cache e.entry e.blobResult
  let content ← writeFile E ops
  let fs := fs.setNode i (.file content)
  if e.blobResult = .empty then return fs
  else do
    let (hash, _) ← convertFileZsizeHash E content .zero false
    let same ← sfmfFilehashCompare hash e.entry.hash
    if same then return fs
    else failAndExit "File failed hash check"

/-- `unpack_write_entry`. -/
def unpackWriteEntry (opts : UnpackOptions) (d : Bytes) (m : Manifest) (cache : Dir) (fs : FS Loc)
    (e : UnpackFileEntry) : Exec (FS Loc) := do
  let l := N.resolve e.targetFilename
  if e.entry.type = entryDirectory then
    let filename ← m.filenameAt e.entry.filenameOffset
    match fs.create (N.parent l) l .directory with
    | .ok fs => return fs
    | .error err =>
      if filename = str ['/'] ∧ err = .eexist then return fs else failAndExit "Failed to create"
  else if e.entry.type = entryFile then writeBlobData E N opts d cache fs e
  else if e.entry.type = entrySymlink then
    match e.blobResult with
    | .included b =>
      cAssert (isZcompressed b.flags = false) "(e->blob_result.included.entry->flags & BLOB_FLAG_ZCOMPRESSED) == 0"
      let data ← getBlobData d b
      let target := data.takeWhile (· ≠ 0)
      if target = [] then failAndExit "Failed to create"
      orExit "Failed to create" (fs.create (N.parent l) l (.symlink target))
    | _ => .error (.assertion "e->blob_result.type == BLOB_RESULT_INCLUDED")
  else if e.entry.type = entryCharacter ∨ e.entry.type = entryBlock then
    orExit "Failed to create" (fs.create (N.parent l) l (.device e.entry.mode e.entry.dev))
  else if e.entry.type = entryFifo then
    orExit "Failed to create" (fs.create (N.parent l) l .fifo)
  else if e.entry.type = entryHardlink then
    cAssert (e.blobResult = .hardlink) "e->blob_result.type == BLOB_RESULT_HARDLINK"
    match m.fentries[e.entry.dev.toNat]? with
    | none => .error (.assertion "e->entry.dev >= 0 && e->entry.dev < opts->header.entries_length")
    | some hentry =>
      let hfilename ← m.filenameAt hentry.filenameOffset
      orExit "Failed to create" (fs.link (N.resolve (opts.outputdir ++ hfilename)) (N.parent l) l)
  else .error (.assertion "0")

/-! ## Permissions -/

/-- `struct DirStackEntry`. -/
structure DirStackEntry where
  path : Bytes
  userData : SfmfFileEntry
  deriving DecidableEq, Repr

/-- `is_prefix_of`. -/
def isPrefixOf (top path : Bytes) : Exec Bool := do
  cAssert (top ≠ path) "strcmp(prefix, path) != 0"
  if path.length > top.length ∧ path.take top.length = top then
    match top.getLast? with
    | none => .error .fault
    | some c => return c = slash ∨ path[top.length]? = some slash
  else return false

/-- `dirstack_push`, with the top of the stack in front and the `pop_func` of the stack. -/
def dirstackPush {σ : Type} (popFunc : σ → DirStackEntry → Exec σ) (current : DirStackEntry) :
    List DirStackEntry → σ → Exec (List DirStackEntry × σ)
  | [], s => return ([current], s)
  | top :: stack, s => do
    let below ← isPrefixOf top.path current.path
    if below then return (current :: top :: stack, s)
    else do
      let s ← popFunc s top
      dirstackPush popFunc current stack s

/-- `dirstack_free`. -/
def dirstackFree {σ : Type} (popFunc : σ → DirStackEntry → Exec σ) (stack : List DirStackEntry) (s : σ) : Exec σ :=
  stack.foldlM popFunc s

/-- `unpack_dirstack_entry_pop`. -/
def unpackDirstackEntryPop (fs : FS Loc) (entry : DirStackEntry) : Exec (FS Loc) :=
  orExit "Failed to set mtime" (fs.chattr (N.resolve entry.path) fun a => { a with mtime := entry.userData.mtime })

/-- The `chmod` of `unpack_set_permissions`: permissions on symlinks are not really used. -/
def setMode (l : Loc) (entry : SfmfFileEntry) (fs : FS Loc) : Exec (FS Loc) :=
  if entry.type = entrySymlink then return fs
  else orExit "Could not change permission" (fs.chattr l fun a => { a with mode := entry.mode })

/-- `unpack_set_permissions`. -/
def unpackSetPermissions (s : List DirStackEntry × FS Loc) (e : UnpackFileEntry) :
    Exec (List DirStackEntry × FS Loc) := do
  let (stack, fs) := s
  let l := N.resolve e.targetFilename
  let fs ← orExit "Could not change owner/group" (fs.lchown l e.entry.uid e.entry.gid)
  let fs ← setMode l e.entry fs
  if e.entry.type = entryDirectory then dirstackPush (unpackDirstackEntryPop N) ⟨e.targetFilename, e.entry⟩ stack fs
  else do
    let fs ← orExit "Failed to set mtime" (fs.chattr l fun a => { a with mtime := e.entry.mtime })
    return (stack, fs)

/-! ## The program -/

/-- What is known when the entries are classified. -/
structure Classified where
  /-- the content of the manifest -/
  data : Bytes
  manifest : Manifest
  entries : List UnpackFileEntry
  localFiles : List FileEntry
  state : CacheState

/-- `main` up to the classification. -/
def unpackClassify (opts : UnpackOptions) (cache : Dir) : Exec Classified := do
  let (file, s) ← downloadPayloadFile E opts.source opts.offlineMode manifestFilename none false ⟨cache, [], []⟩
  cAssert (file.isSome) "opts->manifest_local_filename"
  match s.cache manifestFilename with
  | none => .error (.assertion "opts->fp")
  | some d =>
    let (header, pos) ← readHeader d
    let localFiles ← opts.sourcedirs.foldlM (extendFileList E opts.localDisk true .none) []
    let m ← readTables d header pos
    let (entries, localFiles) ← classifyEntries E opts m localFiles m.fentries
    return ⟨d, m, entries, localFiles, s⟩

/-- The download of the requirements, unless the run is an offline one. -/
def unpackDownload (opts : UnpackOptions) (c : Classified) : Exec CacheState :=
  if opts.offlineMode then return c.state
  else c.entries.foldlM (unpackDownloadRequirements E opts) c.state

/-- The writing of the files and of their permissions, unless the run is for downloads only. -/
def unpackWrite (opts : UnpackOptions) (c : Classified) (s : CacheState) (fs : FS Loc) : Exec (FS Loc) :=
  if opts.downloadOnly then return fs
  else do
    let fs ← c.entries.foldlM (unpackWriteEntry E N opts c.data c.manifest s.cache) fs
    let (stack, fs) ← c.entries.foldlM (unpackSetPermissions N) ([], fs)
    dirstackFree (unpackDirstackEntryPop N) stack fs

/-- What a successful run leaves. -/
structure Unpacked (Loc : Type) where
  classified : Classified
  state : CacheState
  fs : FS Loc

/-- `main` of `sfmf-unpack`, on a cache directory and a file system to write to. -/
def unpackMain (opts : UnpackOptions) (cache : Dir) (fs : FS Loc) : Exec (Unpacked Loc) := do
  let c ← unpackClassify E opts cache
  let s ← unpackDownload E opts c
  let fs ← unpackWrite E N opts c s fs
  return ⟨c, s, fs⟩

end Output

end Sfmf

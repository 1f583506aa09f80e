import Sfmf.Spec.Convert

/-!
# File lists (`common/fileentry.c`)

What the code asks the file system about a path (`Disk`), the entries of a file
list, and how a walk over a directory becomes such a list. A list is the sequence
of its entries: the allocated size plays no role.
-/

namespace Sfmf

/-! ## The file system that is read -/

/-- A C string: bytes other than NUL. -/
abbrev CString := { s : Bytes // (0 : UInt8) ∉ s }

/-- What the code reads of `struct stat`. -/
structure Stat where
  stIno : ℕ
  stMode : UInt32
  stUid : UInt32
  stGid : UInt32
  stRdev : UInt64
  stSize : ℕ
  stMtime : UInt64
  deriving DecidableEq, Repr

/-- `S_IFMT`. -/
def sIfmt : UInt32 := 0o170000

/-- The type bits of a mode. -/
abbrev hasType (mode type : UInt32) : Prop := mode &&& sIfmt = type

abbrev sIsreg (mode : UInt32) : Prop := hasType mode 0o100000
abbrev sIslnk (mode : UInt32) : Prop := hasType mode 0o120000
abbrev sIsdir (mode : UInt32) : Prop := hasType mode 0o040000
abbrev sIschr (mode : UInt32) : Prop := hasType mode 0o020000
abbrev sIsblk (mode : UInt32) : Prop := hasType mode 0o060000
abbrev sIsfifo (mode : UInt32) : Prop := hasType mode 0o010000
abbrev sIssock (mode : UInt32) : Prop := hasType mode 0o140000

/-- A mode has one type. -/
theorem hasType_inj {mode t t' : UInt32} (h : hasType mode t) (h' : hasType mode t') : t = t' :=
  h.symm.trans h'

theorem sIslnk_not_sIsreg {mode : UInt32} (h : sIslnk mode) : ¬ sIsreg mode :=
  fun h' => absurd (hasType_inj h h') (by decide)

theorem sIsreg_not_sIslnk {mode : UInt32} (h : sIsreg mode) : ¬ sIslnk mode :=
  fun h' => sIslnk_not_sIsreg h' h

/-- `PATH_MAX`. -/
def pathMax : ℕ := 4096

/-- The answers of the file system, for each path. -/
structure Disk where
  lstat : CString → Option Stat
  readlink : CString → Option Bytes
  /-- the content read through `fopen(path, "rb")` -/
  fopen : CString → Option Bytes

/-- A tree that can be packed: the size of a regular file is the length of its
content, and that of a symlink the length of its target. -/
structure SourceTree extends Disk where
  regular : ∀ {p st}, lstat p = some st → sIsreg st.stMode →
    ∃ d, fopen p = some d ∧ d.length = st.stSize
  symlink : ∀ {p st}, lstat p = some st → sIslnk st.stMode →
    ∃ t, readlink p = some t ∧ t.length = st.stSize ∧ t ≠ [] ∧ (0 : UInt8) ∉ t ∧ t.length < pathMax

/-- `fopen(path, "rb")` and `assert(fp != NULL)`. -/
def Disk.openFile (D : Disk) (path : CString) (text : String) : Exec Bytes :=
  match D.fopen path with
  | some d => .ok d
  | none => .error (.assertion text)

/-! ## Entries -/

/-- `struct FileEntry`. -/
structure FileEntry where
  filename : CString
  st : Stat
  zsize : UInt32
  hash : SfmfFileHash
  /-- we don't need to store this (hash match with another file) -/
  duplicate : Bool
  /-- the index of the matching file, otherwise -1 -/
  hardlinkIndex : ℤ
  deriving DecidableEq, Repr

/-- `enum FileListFlags`. -/
inductive FileListFlags where
  | none
  | calculateHash
  deriving DecidableEq, Repr

/-- `fileentry_get_min_size`: either the compressed or the uncompressed size. -/
def fileentryGetMinSize (entry : FileEntry) : Int32 :=
  let size := UInt32.ofNat entry.st.stSize
  let size := if entry.zsize > 0 ∧ entry.zsize < size then entry.zsize else size
  size.toInt32

variable (E : Env)

/-- `fileentry_calculate_zsize_hash`. -/
def fileentryCalculateZsizeHash (D : Disk) (entry : FileEntry) : Exec FileEntry := do
  let d ← D.openFile entry.filename "infile != NULL"
  let (hash, zsize) ← convertFileZsizeHash E d entry.hash true
  return { entry with hash := hash, zsize := zsize.getD entry.zsize }

/-- The entry of `filelist_append` after the check of its type. -/
def filelistAppendHash (D : Disk) (flags : FileListFlags) (entry : FileEntry) : Exec FileEntry :=
  if sIsreg entry.st.stMode ∧ entry.st.stSize > 0 then
    let entry := { entry with hash := { entry.hash with size := UInt32.ofNat entry.st.stSize } }
    match flags with
    | .calculateHash => fileentryCalculateZsizeHash E D entry
    | .none => return { entry with hash := { entry.hash with hashtype := hashtypeLazy } }
  else if sIslnk entry.st.stMode then
    match D.readlink entry.filename with
    | some buf =>
      let buf := buf.take pathMax
      return { entry with zsize := 0, hash := ⟨UInt32.ofNat buf.length, hashtypeSha1, E.sha1 buf⟩ }
    | none => .error (.assertion "length != -1")
  else return entry

/-- `filelist_append`. Sockets are skipped, as are unsupported types if the policy says so. -/
def filelistAppend (D : Disk) (ignoreUnsupported : Bool) (flags : FileListFlags) (list : List FileEntry)
    (filename : CString) : Exec (List FileEntry) :=
  match D.lstat filename with
  | none => failAndExit "Can't stat"
  | some st =>
    if sIslnk st.stMode ∨ sIsreg st.stMode ∨ sIsdir st.stMode ∨ sIschr st.stMode ∨ sIsblk st.stMode ∨
        sIsfifo st.stMode then do
      let entry ← filelistAppendHash E D flags ⟨filename, st, 0, .zero, false, -1⟩
      return list ++ [entry]
    else if sIssock st.stMode then return list
    else if ignoreUnsupported then return list
    else failAndExit "Unsupported type"

/-- `extend_file_list`: `walk` is what `nftw` visits, in its order. -/
def extendFileList (D : Disk) (ignoreUnsupported : Bool) (flags : FileListFlags) (list : List FileEntry)
    (walk : List CString) : Exec (List FileEntry) :=
  walk.foldlM (filelistAppend E D ignoreUnsupported flags) list

/-- `get_file_list`. -/
def getFileList (D : Disk) (walk : List CString) : Exec (List FileEntry) :=
  extendFileList E D false .calculateHash [] walk

end Sfmf

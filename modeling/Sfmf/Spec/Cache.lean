import Sfmf.Spec.Unpack

/-!
# The cache directory, step by step (`tools/unpack.c`, `common/cleanup.c`)

`download_payload_file` statement by statement, on a process that can be interrupted
between any two of them: `UnpackCache.step`. A download writes to its file as often
and whatever it likes, and ends however it likes. The calls of `common/dirstack.c`
by which directories wait for their modification times are there as well, pop by
pop, on a file system that says at any time which calls of `lutimes` succeed.
`unpack_cleanup` runs when the process exits or a signal is handled, and once more
in the child in which `curl` could not be executed.

The directory is the list of its files, so that `rmdir` can find it empty; it is
`none` once it is removed. The cleanup is one step: signals that arrive while it
runs, and what happens to the process after it, are left out.
-/

namespace Sfmf

variable (E : Env)

/-! ## The directory -/

/-- The files of a directory, each with its content. -/
abbrev CacheFiles := List (Bytes × Bytes)

/-- Write a file. -/
def CacheFiles.write (files : CacheFiles) (name content : Bytes) : CacheFiles :=
  (name, content) :: files.filter fun f => f.1 ≠ name

/-- `unlink` or `remove`. -/
def CacheFiles.unlink (files : CacheFiles) (name : Bytes) : CacheFiles := files.filter fun f => f.1 ≠ name

/-- `rmdir`, which fails on a directory with files. -/
def rmdir : Option CacheFiles → Option CacheFiles
  | some [] => none
  | dir => dir

/-! ## The process -/

/-- The arguments of a call of `download_payload_file`. -/
structure DownloadCall where
  filename : Bytes
  expectedHash : Option SfmfFileHash
  isCompressed : Bool
  deriving DecidableEq, Repr

/-- The statement that is next, of `download_payload_file` or of a call of `dirstack.c`. -/
inductive DownloadPc where
  /-- no call -/
  | idle
  /-- `if (file_exists(dest_file) && expected_hash)`, and the checks in it -/
  | lookup (call : DownloadCall)
  /-- `filelist_append`, of a cached file that verifies -/
  | appendCached (call : DownloadCall)
  /-- `unlink`, of a cached file that does not -/
  | unlinkCached (call : DownloadCall)
  /-- `if (!file_exists(dest_file))` and `if (opts->offline_mode)` -/
  | lookupAgain (call : DownloadCall)
  /-- `opts->temporary_download = strdup(dest_file)` -/
  | remember (call : DownloadCall)
  /-- the download -/
  | fetching (call : DownloadCall)
  /-- `if (expected_hash)` and `sfmf_filehash_verify`, of the download -/
  | verify (call : DownloadCall)
  /-- `filelist_append`, of a download that verifies or is unchecked -/
  | append (call : DownloadCall)
  /-- `unlink`, of a download that does not verify -/
  | unlink (call : DownloadCall)
  /-- `FREE_VAR(opts->temporary_download)` -/
  | release (result : Option Bytes)
  /-- `return dest_file` -/
  | returned (result : Option Bytes)
  /-- in `dirstack_push`, at the test of its loop -/
  | dirstackPush (current : DirStackEntry)
  /-- in `dirstack_free`, at the test of its loop, or behind it -/
  | dirstackFree
  /-- the call has not returned -/
  | stopped (why : Stop)
  /-- the cleanup was run -/
  | cleaned
  deriving DecidableEq, Repr

/-- `opts->dir_stack`. -/
inductive DirStackPtr where
  /-- a null pointer -/
  | null
  /-- a stack, with the top in front -/
  | stack (entries : List DirStackEntry)
  /-- freed memory is reached, the path of the top or the whole stack, until the next statement leaves this stack -/
  | dangling (next : Option (List DirStackEntry))
  deriving DecidableEq, Repr

/-- What the calls and the cleanup use of `struct UnpackOptions`, and the file system: the directory, and for which
paths `lutimes` succeeds. -/
structure UnpackCache where
  pc : DownloadPc
  cachedir : Option CacheFiles
  cachedFiles : List Bytes
  temporaryDownload : Option Bytes
  /-- `g_cleanup_func` is set -/
  cleanupFunc : Bool
  dirStack : DirStackPtr
  lutimes : Bytes → Bool

namespace UnpackCache

/-- A file in the cache directory. -/
def file (s : UnpackCache) (name : Bytes) : Option Bytes := s.cachedir.bind fun files => files.lookup name

/-- A process with a new temporary directory, and its cleanup registered. -/
def fresh : UnpackCache := ⟨.idle, some [], [], none, true, .null, fun _ => true⟩

/-- A process with a persistent directory (`-C`). -/
def persistent (files : CacheFiles) : UnpackCache := ⟨.idle, some files, [], none, true, .null, fun _ => true⟩

def goto (s : UnpackCache) (pc : DownloadPc) : UnpackCache := { s with pc := pc }

/-- `filelist_foreach(opts->cached_files, filelist_contains_filename, dest_file)`. -/
def containsFilename (s : UnpackCache) (name : Bytes) : Bool := s.cachedFiles.any fun f => f = name

/-- `unlink` or `remove` of a file in the cache directory. -/
def removeFile (s : UnpackCache) (name : Bytes) : UnpackCache :=
  { s with cachedir := s.cachedir.map fun files => files.unlink name }

/-- The download writes to its file. -/
def writeFile (s : UnpackCache) (name content : Bytes) : UnpackCache :=
  { s with cachedir := s.cachedir.map fun files => files.write name content }

/-- `filelist_append` to `cached_files`: the entry is there before `lstat` fails. -/
def filelistAppend (s : UnpackCache) (name : Bytes) (pc : DownloadPc) : UnpackCache :=
  let s := { s with cachedFiles := s.cachedFiles ++ [name] }
  match s.file name with
  | some _ => s.goto pc
  | none => s.goto (.stopped (.exit "Can't stat"))

/-! ## The directory stack -/

/-- `unpack_dirstack_entry_pop`, of which only matters whether `lutimes` succeeds. -/
def popEntry (s : UnpackCache) (entry : DirStackEntry) : Exec Unit :=
  if s.lutimes entry.path then return () else failAndExit "Failed to set mtime"

/-- `dirstack_pop`, up to where it frees the path of the top: if `pop_func` exits, the top is still there. -/
def dirstackPop (s : UnpackCache) (top : DirStackEntry) (stack : List DirStackEntry) : UnpackCache :=
  match s.popEntry top with
  | .ok _ => { s with dirStack := .dangling (some stack) }
  | .error why => s.goto (.stopped why)

/-- The next statement of `dirstack_push`. -/
def nextPush (s : UnpackCache) (current : DirStackEntry) : UnpackCache :=
  match s.dirStack with
  | .stack [] => { s with dirStack := .stack [current], pc := .idle }
  | .stack (top :: stack) =>
    match isPrefixOf top.path current.path with
    | .ok true => { s with dirStack := .stack (current :: top :: stack), pc := .idle }
    | .ok false => s.dirstackPop top stack
    | .error why => s.goto (.stopped why)
  | .dangling (some stack) => { s with dirStack := .stack stack }
  | .dangling none => s.goto (.stopped .fault)
  | .null => s.goto (.stopped (.assertion "stack != NULL && path != NULL"))

/-- The next statement of `dirstack_free`, and `opts->dir_stack = 0` after it. -/
def nextFree (s : UnpackCache) : UnpackCache :=
  match s.dirStack with
  | .stack [] => { s with dirStack := .dangling none }
  | .stack (top :: stack) => s.dirstackPop top stack
  | .dangling (some stack) => { s with dirStack := .stack stack }
  | .dangling none => { s with dirStack := .null, pc := .idle }
  | .null => s.goto (.stopped (.assertion "stack"))

/-! ## The cleanup -/

/-- The first part of `unpack_cleanup`, on `dir_stack`. -/
def freeDirStack (s : UnpackCache) : Exec UnpackCache :=
  match s.dirStack with
  | .null => return s
  | .stack entries => do
    dirstackFree (fun _ entry => s.popEntry entry) entries ()
    return { s with dirStack := .null }
  | .dangling _ => .error .fault

/-- The part of `unpack_cleanup` on `temporary_download`. -/
def removeTemporary (s : UnpackCache) : UnpackCache :=
  match s.temporaryDownload with
  | some name => { s.removeFile name with temporaryDownload := none }
  | none => s

/-- `filelist_foreach(opts->cached_files, filelist_remove_file, NULL)`. -/
def removeCached (s : UnpackCache) : UnpackCache := s.cachedFiles.foldl removeFile s

/-- `unpack_cleanup`, on the cache directory. -/
def unpackCleanup (keepCachedFiles : Bool) (s : UnpackCache) : UnpackCache :=
  match s.freeDirStack with
  -- a pop has called `exit` once more, and the rest is not done
  | .error _ => s
  | .ok s =>
    let s := s.removeTemporary
    if keepCachedFiles then s
    else
      let s := s.removeCached
      { s with cachedFiles := [], cachedir := rmdir s.cachedir }

/-- `sfmf_cleanup_run`. -/
def sfmfCleanupRun (keepCachedFiles : Bool) (s : UnpackCache) : UnpackCache :=
  if s.cleanupFunc then { s with cleanupFunc := false }.unpackCleanup keepCachedFiles else s

/-! ## Steps -/

/-- What can happen next. -/
inductive Event where
  /-- `download_payload_file` is called -/
  | call (call : DownloadCall)
  /-- the next statement -/
  | next
  /-- the download has written this much to its file -/
  | write (content : Bytes)
  /-- the download is done -/
  | fetched
  /-- the download fails -/
  | fetchFails (why : Stop)
  /-- `curl` cannot be executed: the child exits, and then the process does -/
  | execFails
  /-- `exit`, or the end of `main` -/
  | exit
  /-- a signal that is handled -/
  | signal
  /-- `opts->dir_stack = dirstack_new(unpack_dirstack_entry_pop)` -/
  | dirstackNew
  /-- `dirstack_push` is called -/
  | dirstackPush (current : DirStackEntry)
  /-- `dirstack_free` is called by `main` -/
  | dirstackFree
  /-- from now on `lutimes` succeeds for these paths, after a `chmod` of a directory or whatever others do -/
  | lutimes (succeeds : Bytes → Bool)

/-- The check of a file that is there. -/
def verifyFile (s : UnpackCache) (call : DownloadCall) (hash : SfmfFileHash) (d : Bytes) (good bad : DownloadPc) :
    UnpackCache :=
  match sfmfFilehashVerify E hash d call.isCompressed with
  | .ok true => s.goto good
  | .ok false => s.goto bad
  | .error why => s.goto (.stopped why)

/-- The next statement of the call. -/
def next (offlineMode : Bool) (s : UnpackCache) : UnpackCache :=
  match s.pc with
  | .lookup call =>
    match call.expectedHash, s.file call.filename with
    | some hash, some d =>
      if s.containsFilename call.filename then s.goto (.lookupAgain call)
      else s.verifyFile E call hash d (.appendCached call) (.unlinkCached call)
    | _, _ => s.goto (.lookupAgain call)
  | .appendCached call => s.filelistAppend call.filename (.lookupAgain call)
  | .unlinkCached call => (s.removeFile call.filename).goto (.lookupAgain call)
  | .lookupAgain call =>
    if (s.file call.filename).isSome then s.goto (.returned (some call.filename))
    else if offlineMode then s.goto (.stopped (.exit "Need to download, but offline mode requested."))
    else s.goto (.remember call)
  | .remember call => { s with temporaryDownload := some call.filename, pc := .fetching call }
  | .verify call =>
    match s.file call.filename, call.expectedHash with
    | _, none => s.goto (.append call)
    | some d, some hash => s.verifyFile E call hash d (.append call) (.unlink call)
    | none, some _ => s.goto (.stopped (.assertion "infile != NULL"))
  | .append call => s.filelistAppend call.filename (.release (some call.filename))
  | .unlink call => (s.removeFile call.filename).goto (.release none)
  | .release result => { s with temporaryDownload := none, pc := .returned result }
  | .returned _ => s.goto .idle
  | .dirstackPush current => s.nextPush current
  | .dirstackFree => s.nextFree
  | .idle | .fetching _ | .stopped _ | .cleaned => s

/-- Whether a signal finds the process alive, and with its cleanup before it: a failed assertion ends it
without. -/
def alive (s : UnpackCache) : Bool :=
  match s.pc with
  | .stopped (.assertion _) | .stopped .fault | .cleaned => false
  | _ => true

/-- Whether `exit` is called, or `main` can return. -/
def exits (s : UnpackCache) : Bool :=
  match s.pc with
  | .idle | .stopped (.exit _) => true
  | _ => false

/-- The cleanup, as the last thing the process does. -/
def finish (keepCachedFiles : Bool) (s : UnpackCache) : UnpackCache := (s.sfmfCleanupRun keepCachedFiles).goto .cleaned

/-- One step of the process. What cannot happen in a state has no effect on it. -/
def step (offlineMode keepCachedFiles : Bool) (s : UnpackCache) : Event → UnpackCache
  | .call call => if s.pc = .idle then s.goto (.lookup call) else s
  | .next => s.next E offlineMode
  | .write content =>
    match s.pc with
    | .fetching call => s.writeFile call.filename content
    | _ => s
  | .fetched =>
    match s.pc with
    | .fetching call => s.goto (.verify call)
    | _ => s
  | .fetchFails why =>
    match s.pc with
    | .fetching _ => s.goto (.stopped why)
    | _ => s
  | .execFails =>
    match s.pc with
    | .fetching _ =>
      -- the child has its own memory, but the directory is the same
      { s with cachedir := (s.sfmfCleanupRun keepCachedFiles).cachedir,
               pc := .stopped (.exit "curl exited with non-zero exit status") }
    | _ => s
  | .exit => if s.exits then s.finish keepCachedFiles else s
  | .signal => if s.alive then s.finish keepCachedFiles else s
  | .dirstackNew => if s.pc = .idle then { s with dirStack := .stack [] } else s
  | .dirstackPush current => if s.pc = .idle then s.goto (.dirstackPush current) else s
  | .dirstackFree => if s.pc = .idle then s.goto .dirstackFree else s
  | .lutimes succeeds => { s with lutimes := succeeds }

end UnpackCache

end Sfmf

import Sfmf.Spec.Unpack

/-!
# The dump tools (`tools/dumpmanifest.c`, `tools/dumppack.c`)

Two more readers of the file formats, for people: what they print of a manifest and of a pack. A
piece of output is what one call of `SFMF_LOG` prints behind the time; a run returns the pieces in order. What is
printed by a run that stops is left out.
-/

namespace Sfmf

/-! ## Formats of `printf` -/

/-- The bytes of a text. -/
def text (s : String) : Bytes := s.toList.map fun c => UInt8.ofNat c.toNat

/-- The digits of a number. -/
def digitsOf (base n : ℕ) : Bytes := (Nat.toDigits base n).map fun c => UInt8.ofNat c.toNat

/-- `%d` of a `uint32_t`, which is read as an `int`. -/
def signedDecimal (x : UInt32) : Bytes :=
  if x.toNat < 2 ^ 31 then digitsOf 10 x.toNat else text "-" ++ digitsOf 10 (2 ^ 32 - x.toNat)

/-- A field width, filled up with spaces. -/
def fieldWidth (n : ℕ) (b : Bytes) : Bytes := b.leftpad n 0x20

/-- `%06o`. -/
def octal6 (x : UInt32) : Bytes := (digitsOf 8 x.toNat).leftpad 6 0x30

/-- `%x (%c%c%c%c)`: a magic number, and its bytes. -/
def magicText (magic : UInt32) : Bytes :=
  digitsOf 16 magic.toNat ++ text " (" ++ be 4 magic.toNat ++ text ")"

/-- `%s` of a buffer: up to the first NUL. -/
def cStringIn (b : Bytes) : Exec Bytes := if (0 : UInt8) ∈ b then .ok (b.takeWhile (· ≠ 0)) else .error .fault

/-- A part of the output between two lines with its title. -/
def dumpSection (title : String) (lines : List Bytes) : List Bytes :=
  let line := text "==== " ++ text title ++ text " ====\n"
  [line] ++ lines ++ [line]

/-! ## The common part -/

/-- The lines for a blob entry with this hash. -/
def itemText (i : ℕ) (entry : SfmfBlobEntry) (tmp : Bytes) : List Bytes :=
  [text " == Item " ++ digitsOf 10 i ++ text " ==\n",
    text "  Hash: " ++ tmp ++ text "\n",
    if isZcompressed entry.flags then text "  Flags: zcompressed\n" else text "  Flags: -\n",
    text "  Offset: " ++ signedDecimal entry.offset ++ text "\n",
    text "  Size: " ++ signedDecimal entry.size ++ text " (" ++ signedDecimal entry.hash.size ++ text " uncompressed)\n"]

/-- A blob entry. -/
def dumpItem (i : ℕ) (entry : SfmfBlobEntry) : Exec (List Bytes) := do
  let tmp ← sfmfFilehashFormat entry.hash
  return itemText i entry tmp

/-- A loop that prints what it has read, with its counter. -/
def dumpTable {α β : Type} (f : ℕ → α → Exec β) (l : List α) : Exec (List β) := l.zipIdx.mapM fun e => f e.2 e.1

/-! ## `dumpmanifest` -/

/-- The file header, as it is printed. -/
def manifestHeaderText (header : SfmfFileHeader) : Bytes :=
  text "File header:\n Magic: " ++ magicText header.magic ++
  text "\n Version: " ++ signedDecimal header.version ++
  text "\n Metadata size: " ++ signedDecimal header.metadataSize ++
  text " bytes\n Filename table size: " ++ signedDecimal header.filenameTableSize ++
  text " bytes\n Entries: " ++ signedDecimal header.entriesLength ++
  text "\n Packs: " ++ signedDecimal header.packsLength ++
  text "\n Blobs: " ++ signedDecimal header.blobsLength ++ text "\n\n"

/-- The letter for the type of an entry. -/
def filetype (type : EntryType) : Bytes :=
  if type = entryDirectory then text "d"
  else if type = entryFile then text "f"
  else if type = entrySymlink then text "s"
  else if type = entryCharacter then text "c"
  else if type = entryFifo then text "p"
  else if type = entryHardlink then text "h"
  else if type = entryBlock then text "b"
  else text "!"

/-- The line for an entry with this hash and this name. -/
def entryText (entry : SfmfFileEntry) (tmp filename : Bytes) : Bytes :=
  text "[" ++ filetype entry.type ++ text "] " ++ octal6 entry.mode ++ text " " ++
  fieldWidth 5 (signedDecimal entry.uid) ++ text ":" ++ fieldWidth 5 (signedDecimal entry.gid) ++
  text " (" ++ tmp ++ text ") " ++ filename ++ text " (" ++ signedDecimal entry.hash.size ++ text " bytes / " ++
  signedDecimal entry.zsize ++ text " zbytes)\n"

/-- The hash of an entry, or a dash. -/
def dumpEntryHash (entry : SfmfFileEntry) : Exec Bytes :=
  if 0 < entry.hash.size then sfmfFilehashFormat entry.hash else return text "-"

/-- An entry. -/
def dumpEntry (filenameTable : Bytes) (entry : SfmfFileEntry) : Exec Bytes := do
  let tmp ← dumpEntryHash entry
  let filename ← cStringIn (filenameTable.drop entry.filenameOffset.toNat)
  return entryText entry tmp filename

/-- The line for a pack entry with this hash. -/
def packEntryText (i : ℕ) (entry : SfmfPackEntry) (tmp : Bytes) : Bytes :=
  text "Pack " ++ digitsOf 10 i ++ text " (" ++ tmp ++ text "), " ++ signedDecimal entry.hash.size ++
  text " bytes: " ++ signedDecimal entry.count ++ text " entries @ offset " ++ signedDecimal entry.offset ++ text "\n"

/-- A pack entry. -/
def dumpPackEntry (i : ℕ) (entry : SfmfPackEntry) : Exec Bytes := do
  let tmp ← sfmfFilehashFormat entry.hash
  return packEntryText i entry tmp

/-- The line in front of the hashes of a pack. -/
def packContentsText (i : ℕ) (tmp : Bytes) : Bytes := text "Pack " ++ digitsOf 10 i ++ text " (" ++ tmp ++ text "):\n"

/-- The line for a hash in a pack. -/
def packHashText (j : ℕ) (hash : SfmfFileHash) (tmp : Bytes) : Bytes :=
  text "  #" ++ fieldWidth 4 (digitsOf 10 j) ++ text ": " ++ tmp ++ text " (" ++ signedDecimal hash.size ++
    text " bytes)\n"

/-- The loop over the hashes of a pack. -/
def dumpPackHashes (d : Bytes) : ℕ → ℕ → ℕ → Exec (List Bytes)
  | _, _, 0 => return []
  | pos, j, count + 1 => do
    let (b, pos) ← freadOne d pos sfmfFileHashSize
    let hash := SfmfFileHash.decode b
    let tmp ← sfmfFilehashFormat hash
    let lines ← dumpPackHashes d pos (j + 1) count
    return packHashText j hash tmp :: lines

/-- What a pack contains. -/
def dumpPackContents (d : Bytes) (i : ℕ) (entry : SfmfPackEntry) : Exec (List Bytes) := do
  let tmp ← sfmfFilehashFormat entry.hash
  let lines ← dumpPackHashes d entry.offset.toNat 0 entry.count.toNat
  return packContentsText i tmp :: lines

/-- `main` of `dumpmanifest`, on a manifest with content `d`. -/
def dumpManifest (d : Bytes) : Exec (List Bytes) := do
  let (b, pos) ← freadOne d 0 sfmfFileHeaderSize
  let header := SfmfFileHeader.decode b
  cAssert (header.magic = sfmfMagicNumber) "header.magic == SFMF_MAGIC_NUMBER"
  cAssert (header.version = sfmfCurrentVersion) "header.version == SFMF_CURRENT_VERSION"
  let (metadata, pos) ← freadOne d pos header.metadataSize.toNat
  let metadata ← cStringIn metadata
  let (filenameTable, pos) ← freadOne d pos header.filenameTableSize.toNat
  let (fentries, pos) := readTable d sfmfFileEntrySize SfmfFileEntry.decode .zero header.entriesLength.toNat pos
  let entries ← fentries.mapM (dumpEntry filenameTable)
  let (pentries, pos) := readTable d sfmfPackEntrySize SfmfPackEntry.decode .zero header.packsLength.toNat pos
  let packs ← dumpTable dumpPackEntry pentries
  let (bentries, _) := readTable d sfmfBlobEntrySize SfmfBlobEntry.decode .zero header.blobsLength.toNat pos
  let items ← dumpTable dumpItem bentries
  let contents ← dumpTable (dumpPackContents d) pentries
  return [manifestHeaderText header] ++ dumpSection "Metadata" [metadata ++ text "\n"] ++ dumpSection "Entries" entries ++
    dumpSection "Pack entries" packs ++ items.flatten ++ dumpSection "Pack Contents" contents.flatten

/-- `main` of `dumpmanifest`, with the arguments behind the name of the program. -/
def dumpmanifestMain (D : Disk) : List CString → Exec (List Bytes)
  | [filename] => do
    let d ← D.openFile filename "fp"
    dumpManifest d
  | _ => failAndExit "Invalid number of arguments: %d (expected %d)\n"

/-! ## `dumppack` -/

/-- The file header, as it is printed. -/
def packHeaderText (header : SfpfFileHeader) : Bytes :=
  text "File header:\n Magic: " ++ magicText header.magic ++
  text "\n Version: " ++ signedDecimal header.version ++
  text "\n Metadata size: " ++ signedDecimal header.metadataSize ++
  text " bytes\n Packed items: " ++ signedDecimal header.blobsLength ++ text "\n\n"

/-- `main` of `dumppack`, on a pack with content `d`. -/
def dumpPack (d : Bytes) : Exec (List Bytes) := do
  let (b, pos) ← freadOne d 0 sfpfFileHeaderSize
  let header := SfpfFileHeader.decode b
  cAssert (header.magic = sfpfMagicNumber) "header.magic == SFPF_MAGIC_NUMBER"
  cAssert (header.version = sfpfCurrentVersion) "header.version == SFPF_CURRENT_VERSION"
  let (metadata, pos) ← freadOne d pos header.metadataSize.toNat
  let metadata ← cStringIn metadata
  let (entries, _) := readTable d sfmfBlobEntrySize SfmfBlobEntry.decode .zero header.blobsLength.toNat pos
  let items ← dumpTable dumpItem entries
  return [packHeaderText header] ++ dumpSection "Metadata" [metadata ++ text "\n"] ++ items.flatten

/-- `main` of `dumppack`, with the arguments behind the name of the program. -/
def dumppackMain (D : Disk) : List CString → Exec (List Bytes)
  | [filename] => do
    let d ← D.openFile filename "fp"
    dumpPack d
  | _ => failAndExit "Invalid number of arguments: %d (expected %d)\n"

end Sfmf

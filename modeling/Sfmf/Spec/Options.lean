import Sfmf.Lib.Strtol
import Sfmf.Spec.Pack

/-!
# The arguments of the packer (`tools/pack.c`)

`parse_opts` reads three paths and three sizes in KiB. `main` multiplies the sizes by 1024 where
it uses them (`packFiles`).
-/

namespace Sfmf

/-- `parse_int_into`: what it stores into `*target`, where it returns 1. -/
def parseIntInto (arg : CString) : Option UInt32 :=
  let (tmp, endptr) := strtol arg.val
  -- the entire string is valid, and no under/overflow occurred
  if tmp ≠ longMin ∧ tmp ≠ longMax ∧ arg.val ≠ [] ∧ endptr = [] then some (UInt32.ofInt tmp) else none

/-- What `parse_opts` warns about before it returns 0. -/
inductive OptsWarning where
  /-- `Invalid number of arguments: %d (expected %d)` -/
  | invalidNumber (argc expected : ℕ)
  /-- `Not a valid size: '%s'` -/
  | notValidSize (arg : CString)
  /-- `Average pack size (%d) is smaller than upper pack limit (%d)` -/
  | averageSmaller (avgPackKb packUpperKb : UInt32)
  deriving DecidableEq, Repr

/-- What `parse_opts` fills in of `struct PackOptions`. -/
structure PackArguments where
  opts : PackOptions
  outDir : CString
  metaFile : CString
  deriving DecidableEq, Repr

/-- One of the three sizes. -/
def parseSize (arg : CString) : Except OptsWarning UInt32 :=
  match parseIntInto arg with
  | some size => .ok size
  | none => .error (.notValidSize arg)

/-- `parse_opts`. -/
def parseOpts (argv : List CString) : Except OptsWarning PackArguments :=
  match argv with
  | [_, inDir, outDir, metaFile, blobUpper, packUpper, avgPack] => do
    let blobUpperKb ← parseSize blobUpper
    let packUpperKb ← parseSize packUpper
    let avgPackKb ← parseSize avgPack
    if avgPackKb < packUpperKb then .error (.averageSmaller avgPackKb packUpperKb)
    else .ok ⟨⟨inDir, blobUpperKb, packUpperKb, avgPackKb, []⟩, outDir, metaFile⟩
  | _ => .error (.invalidNumber argv.length 7)

end Sfmf

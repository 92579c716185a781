import InodeVolume.Inode.Growth
import InodeVolume.Program.Store

/-!
Creation of an inode. All of its blocks are obtained before anything is written, and the record
is written last.
-/
namespace InodeVolume

namespace Store

/-- Makes `sector` the record of an inode with `length` zero bytes. -/
def createAt (sector : SectorId) (length : Nat) (kind : InodeKind) :
    Program Store (Except VolumeError Unit) := do
  let blocks := dataBlocks length
  if maxBlocks < blocks then return .error (.tooLarge length)
  match ← allocateMany (totalSectors blocks) with
  | .error e => return .error e
  | .ok obtained =>
    let (record, _) ← (InodeRecord.fresh kind).grow 0 obtained blocks
    let size ← .word length
    Disk.store sector { record with length := size }
    Disk.note (.created sector kind length blocks)
    return .ok ()

/-- Creates an inode on a sector of its own, which is given back if that fails. -/
def create (length : Nat) (kind : InodeKind) : Program Store (Except VolumeError SectorId) := do
  match ← allocate with
  | none => return .error .noSpace
  | some sector =>
    match ← createAt sector length kind with
    | .ok () => return .ok sector
    | .error e =>
      release sector
      return .error e

end Store

end InodeVolume

import InodeVolume.Inode.BlockAddress
import InodeVolume.Inode.Record
import InodeVolume.Program.Disk

/-!
From the blocks of an inode to the sectors that hold them: the sector of one block, and all the
sectors that a record reaches.
-/
namespace InodeVolume

namespace InodeRecord

/-- The sector of a block; none if a pointer on the way is absent. -/
def resolve (r : InodeRecord) : BlockAddress → Program Disk (Option SectorId)
  | .direct i => return slot r.direct i
  | .indirect outer inner => do
    match slot r.indirect outer with
    | none => return none
    | some index =>
      let block : IndexBlock ← Disk.load index
      return slot block.pointers inner
  | .doubleIndirect outer inner => do
    match r.doubleIndirect with
    | none => return none
    | some double =>
      let upper : IndexBlock ← Disk.load double
      match slot upper.pointers outer with
      | none => return none
      | some index =>
        let block : IndexBlock ← Disk.load index
        return slot block.pointers inner

def blockSector (r : InodeRecord) (index : Nat) : Program Disk (Option SectorId) :=
  match BlockAddress.ofIndex? index with
  | none => return none
  | some address => r.resolve address

/-- The sector that holds a byte; none beyond the length. The position just behind the last byte
counts as inside. -/
def sectorOf (r : InodeRecord) (position : Nat) : Program Disk (Option SectorId) :=
  if r.size < position then return none else r.blockSector (position / 512)

/-- The entries of each index block, followed by the index block itself. -/
def indexedSectors : List SectorId → Program Disk (List SectorId)
  | [] => return []
  | index :: rest => do
    let block : IndexBlock ← Disk.load index
    let later ← indexedSectors rest
    return block.present ++ index :: later

/-- Every sector that the record reaches, index blocks after their entries. -/
def reachable (r : InodeRecord) : Program Disk (List SectorId) := do
  let direct := r.direct.toList.filterMap id
  let indirect ← indexedSectors (r.indirect.toList.filterMap id)
  match r.doubleIndirect with
  | none => return direct ++ indirect
  | some double =>
    let upper : IndexBlock ← Disk.load double
    let below ← indexedSectors upper.present
    return direct ++ indirect ++ below ++ [double]

end InodeRecord

end InodeVolume

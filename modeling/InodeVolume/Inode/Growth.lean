import InodeVolume.Inode.Mapping

/-!
Growth of an inode by blocks at its end, out of a list of sectors obtained beforehand. A data
sector is cleared before it is linked, and an index block is cleared before it is filled.
-/
namespace InodeVolume

namespace InodeRecord

/-- The next of the sectors obtained. -/
def nextSector : List SectorId → Program Disk (SectorId × List SectorId)
  | id :: rest => return (id, rest)
  | [] => .breach .growthNotCounted

/-- Takes a sector and makes it an index block without entries. -/
def newIndexBlock (obtained : List SectorId) : Program Disk (SectorId × List SectorId) := do
  let (id, rest) ← nextSector obtained
  Disk.store id IndexBlock.empty
  return (id, rest)

/-- Sets one entry of an index block. -/
def setEntry (index : SectorId) (i : Fin 128) (id : SectorId) : Program Disk Unit :=
  Disk.update index fun block : IndexBlock => block.set i id

/-- Links a data sector in, together with the index blocks that its place is the first to need.
Ends with the record and the sectors left over. -/
def link (r : InodeRecord) (data : SectorId) (obtained : List SectorId) :
    BlockAddress → Program Disk (InodeRecord × List SectorId)
  | .direct i => return ({ r with direct := setSlot r.direct i (some data) }, obtained)
  | .indirect outer inner => do
    let (r, rest) ← if inner = 0 then do
        let (index, rest) ← newIndexBlock obtained
        pure ({ r with indirect := setSlot r.indirect outer (some index) }, rest)
      else pure (r, obtained)
    let index ← .getOrBreach (slot r.indirect outer) .missingIndirect
    setEntry index inner data
    return (r, rest)
  | .doubleIndirect outer inner => do
    let (r, rest) ← if outer = 0 ∧ inner = 0 then do
        let (double, rest) ← newIndexBlock obtained
        pure ({ r with doubleIndirect := some double }, rest)
      else pure (r, obtained)
    let double ← .getOrBreach r.doubleIndirect .missingDoubleIndirect
    let (index, rest) ← if inner = 0 then do
        let (index, rest) ← newIndexBlock rest
        setEntry double outer index
        pure (index, rest)
      else do
        let upper : IndexBlock ← Disk.load double
        let index ← .getOrBreach (slot upper.pointers outer) .missingIndirect
        pure (index, rest)
    setEntry index inner data
    return (r, rest)

/-- Adds block `index`. -/
def growBlock (r : InodeRecord) (index : Nat) (obtained : List SectorId) :
    Program Disk (InodeRecord × List SectorId) := do
  let (data, rest) ← nextSector obtained
  Disk.clear data
  let address ← .getOrBreach (BlockAddress.ofIndex? index) .growthBeyondRegions
  r.link data rest address

/-- Adds `count` blocks from block `first` on, and answers what is left of the list. Nothing is left
of one that holds as many sectors as are needed (`grow_run`). -/
def grow (r : InodeRecord) (first : Nat) (obtained : List SectorId) :
    Nat → Program Disk (InodeRecord × List SectorId)
  | 0 => return (r, obtained)
  | count + 1 => do
    let (r, rest) ← r.growBlock first obtained
    grow r (first + 1) rest count

end InodeRecord

end InodeVolume

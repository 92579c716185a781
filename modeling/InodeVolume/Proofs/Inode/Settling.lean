import InodeVolume.Inode.OpenInode

/-!
An extension in two parts. First the file gets the blocks that it needs. Then it settles: its record
takes the new length and is written back, and the byte has its sector. The second part takes nothing
from the allocator, and nothing stops it.
-/
namespace InodeVolume

namespace OpenInode

/-- Writes the record back, and finds the sector of a byte that has one. -/
def syncAt (f : OpenInode) (position : Nat) :
    Program Store (Except VolumeError SectorId × OpenInode) := do
  f.sync
  let place ← f.record.blockSector (position / 512)
  let id ← .getOrBreach place .unmappedAfterGrowth
  return (.ok id, f)

/-- What an extension to the byte does once the file has a block for it. -/
def settle (f : OpenInode) (target : Nat) :
    Program Store (Except VolumeError SectorId × OpenInode) := do
  let g ← if f.size ≤ target then f.resized (target + 1) else pure f
  g.syncAt target

theorem extend_eq (f : OpenInode) (target : Nat) : f.extend target =
    if maxBlocks ≤ target / 512 then .done (.error (.tooLarge target), f)
    else (f.growTo (target / 512 + 1)).bind fun
      | .error e => .done (.error e, f)
      | .ok g => g.settle target := by
  rw [extend]
  rfl

end OpenInode

end InodeVolume

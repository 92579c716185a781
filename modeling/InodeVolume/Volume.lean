import InodeVolume.Allocation.FreeMap
import InodeVolume.Inode.Creation
import InodeVolume.SuperBlock

/-!
A volume on a device: sector 0 holds the super block, the next sectors the free map, the one
behind them the record of the root directory, and all others are handed out on demand.
-/
namespace InodeVolume

structure Volume where
  freeMap : FreeMap
  root : SectorId
  deriving DecidableEq

namespace Volume

/-- The free map that lies behind the super block. -/
def freeMapOf (bitmapSectors total : Nat) : FreeMap := ⟨1, bitmapSectors, total⟩

/-- Makes a volume of the first `total` sectors of a device, with an empty root directory. -/
def format (total : UInt32) : Program Disk (Except VolumeError Volume) := do
  let count := total.toNat
  let bitmapSectors := FreeMap.blocksFor count
  if count < 1 + bitmapSectors + 2 then return .error .noSpace
  let freeMap := freeMapOf bitmapSectors count
  freeMap.reset (1 + bitmapSectors)
  match ← freeMap.allocate with
  | none => return .error .noSpace
  | some root =>
    match ← (Store.createAt root 0 .directory).serve freeMap with
    | (.error e, _) => return .error e
    | (.ok (), _) =>
      let bitmapWord ← .word bitmapSectors
      Disk.writeSector 0 (encode (SuperBlock.new total bitmapWord root))
      Disk.note (.formatted count bitmapSectors root)
      return .ok ⟨freeMap, root⟩

/-- Finds the volume on a device. The counts of the super block are taken as they are. -/
def mount : Program Disk (Except VolumeError Volume) := do
  let superBlock : SuperBlock := decode (← Disk.readSector 0)
  if !superBlock.isValid then
    Disk.note .badSuperBlock
    return .error .notFormatted
  match SectorId.ofWord? superBlock.root with
  | none => return .error .notFormatted
  | some root =>
    let total := superBlock.total.toNat
    Disk.note (.mounted total root)
    return .ok ⟨freeMapOf superBlock.bitmapSectors.toNat total, root⟩

end Volume

end InodeVolume

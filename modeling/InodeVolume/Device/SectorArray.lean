import InodeVolume.Device.Basic

/-!
A device in memory: an array of sectors, of a fixed number.
-/
namespace InodeVolume

structure SectorArray where
  sectors : Array Sector

namespace SectorArray

def filled (count : Nat) (byte : UInt8) : SectorArray :=
  ⟨Array.replicate count (Vector.replicate 512 byte)⟩

instance : BlockDevice SectorArray where
  readBlock d index length :=
    match d.sectors[index]? with
    | none => .error (.noSector index)
    | some s => if h : 512 = length then .ok (s.cast h) else .error .partialSector
  acceptWrite d index length :=
    if index < d.sectors.size then
      if h : length = 512 then .ok ⟨h⟩ else .error .partialSector
    else .error (.noSector index)
  put d index s := ⟨d.sectors.setIfInBounds index s⟩
  content d index :=
    match d.sectors[index]? with
    | none => #[]
    | some s => s.toArray

end SectorArray

end InodeVolume

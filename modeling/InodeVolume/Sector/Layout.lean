import InodeVolume.Sector.Words

/-!
A structure that fills exactly one sector. Every sector is the image of exactly one value, so
reading and writing a structure lose nothing.
-/
namespace InodeVolume

class SectorLayout (α : Type) where
  encode : α → Sector
  decode : Sector → α

export SectorLayout (encode decode)

/-- A sector of plain bytes. -/
instance : SectorLayout Sector := ⟨id, id⟩

end InodeVolume

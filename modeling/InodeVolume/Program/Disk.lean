import InodeVolume.Program.Basic
import InodeVolume.Sector.Layout
import InodeVolume.Notice

/-!
Programs that use a disk: they read whole sectors, write whole sectors and give notices. There
is no cache, so each access is one request.
-/
namespace InodeVolume

namespace Disk

inductive Request where
  | read (n : Nat)
  | write (n : Nat) (s : Sector)
  | note (m : Notice)

@[reducible] def Reply : Request → Type
  | .read _ => Sector
  | .write _ _ => Unit
  | .note _ => Unit

end Disk

@[reducible] def Disk : Interface := ⟨Disk.Request, Disk.Reply⟩

namespace Disk

def readSector (n : Nat) : Program Disk Sector :=
  .request (I := Disk) (.read n)

def writeSector (n : Nat) (s : Sector) : Program Disk Unit :=
  .request (I := Disk) (.write n s)

def note (m : Notice) : Program Disk Unit :=
  .request (I := Disk) (.note m)

variable {α β : Type} [SectorLayout α]

def load (id : SectorId) : Program Disk α := do
  let s ← readSector id.index
  return decode s

def store (id : SectorId) (a : α) : Program Disk Unit :=
  writeSector id.index (encode a)

/-- Loads a structure, changes it and stores it at once. -/
def update (id : SectorId) (change : α → α) : Program Disk Unit := do
  let a ← load id
  store id (change a)

def clear (id : SectorId) : Program Disk Unit :=
  writeSector id.index Sector.zero

end Disk

end InodeVolume

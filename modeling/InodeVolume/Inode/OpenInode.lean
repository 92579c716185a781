import InodeVolume.Inode.Creation

/-!
An inode while it is open: how many openers it has, whether it is to be reclaimed, how often
writing is denied, and the copy of its record, which every change writes back at once.
-/
namespace InodeVolume

structure OpenInode where
  sector : SectorId
  openers : Nat
  removed : Bool
  denials : Nat
  record : InodeRecord
  deriving DecidableEq

/-- What can be asked about an inode without reading it. -/
structure InodeStatus where
  inode : Nat
  kind : InodeKind
  size : Nat
  /-- The number of data and index sectors. -/
  blocks : Nat
  deriving DecidableEq

namespace OpenInode

def ofRecord (sector : SectorId) (record : InodeRecord) : OpenInode where
  sector := sector
  openers := 1
  removed := false
  denials := 0
  record := record

def size (f : OpenInode) : Nat := f.record.size

def reopened (f : OpenInode) : OpenInode := { f with openers := f.openers + 1 }

def markedRemoved (f : OpenInode) : OpenInode := { f with removed := true }

def status (f : OpenInode) : InodeStatus where
  inode := f.sector.index
  kind := f.record.kind
  size := f.size
  blocks := totalSectors (dataBlocks f.size)

/-- Denies writing; each opener may do so once. -/
def denyWrite (f : OpenInode) : Program Disk OpenInode := do
  .require (f.denials + 1 ≤ f.openers) (.deniedTooOften f.sector)
  return { f with denials := f.denials + 1 }

def allowWrite (f : OpenInode) : Program Disk OpenInode := do
  .require (0 < f.denials) (.allowedWithoutDenial f.sector)
  .require (f.denials ≤ f.openers) .denialsExceedOpeners
  return { f with denials := f.denials - 1 }

/-- Writes the record back. -/
def sync (f : OpenInode) : Program Disk Unit := Disk.store f.sector f.record

/-- Sets the length of the copy of the record. -/
def resized (f : OpenInode) (length : Nat) : Program Disk OpenInode := do
  let size ← .word length
  return { f with record := { f.record with length := size } }

/-- Makes the inode hold at least `blocks` data blocks. -/
def growTo (f : OpenInode) (blocks : Nat) : Program Store (Except VolumeError OpenInode) := do
  let held := dataBlocks f.size
  if blocks ≤ held then return .ok f
  let count ← .difference (totalSectors blocks) (totalSectors held)
  match ← Store.allocateMany count with
  | .error e => return .error e
  | .ok obtained =>
    let (record, _) ← f.record.grow held obtained (blocks - held)
    Disk.note (.grown f.sector held blocks count)
    return .ok { f with record := record }

/-- Makes byte `target` part of the file and finds its sector. -/
def extend (f : OpenInode) (target : Nat) :
    Program Store (Except VolumeError SectorId × OpenInode) := do
  if maxBlocks ≤ target / 512 then return (.error (.tooLarge target), f)
  match ← f.growTo (target / 512 + 1) with
  | .error e => return (.error e, f)
  | .ok g =>
    let g ← if g.size ≤ target then g.resized (target + 1) else pure g
    g.sync
    let place ← g.record.blockSector (target / 512)
    let id ← .getOrBreach place .unmappedAfterGrowth
    return (.ok id, g)

end OpenInode

end InodeVolume

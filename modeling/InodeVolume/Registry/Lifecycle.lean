import InodeVolume.Registry.Basic

/-!
The life of a handle: opening, reopening, closing and what is done in between. The sectors of a
removed inode are given back when its last opener closes it.
-/
namespace InodeVolume

namespace RegistryM

variable {σ : Type}

/-- Opens the inode on a sector. An inode that the table has open gets one more opener. -/
def openAt (t : TableId) (sector : SectorId) : RegistryM σ (Except VolumeError HandleId) := do
  let entry ← table t
  match (← get).find? entry sector with
  | some h =>
    setInode h (← inode h).reopened
    return .ok h
  | none =>
    let record : InodeRecord ← StateT.lift (Disk.load sector)
    if !record.isValid then
      Disk.note (.notAnInode sector)
      return .error (.badMagic sector)
    let r ← get
    let h : HandleId := ⟨r.handles.size⟩
    set { r.setTable t { entry with registered := entry.registered ++ [h] } with
      handles := r.handles.push ⟨t, .ofRecord sector record⟩ }
    Disk.note (.opened sector)
    return .ok h

def reopen (h : HandleId) : RegistryM σ Unit := do
  setInode h (← inode h).reopened

/-- Takes a handle out of a table. -/
def unregister (t : TableId) (h : HandleId) : RegistryM σ Unit := do
  let entry ← table t
  modify fun r => r.setTable t { entry with registered := entry.registered.filter (· != h) }

/-- Gives back all sectors of an inode, its record last. -/
def reclaim [Allocator σ] (t : TableId) (h : HandleId) : RegistryM σ Unit := do
  let f ← inode h
  let sectors ← StateT.lift f.record.reachable
  setInode h { f with record := f.record.emptied }
  Disk.note (.reclaimed f.sector sectors.length)
  served t do
    Store.releaseAll sectors
    Store.release f.sector

/-- Takes one opener away; the last one takes the handle out of the table. -/
def close [Allocator σ] (t : TableId) (h : HandleId) : RegistryM σ Unit := do
  let f ← inode h
  require (0 < f.openers) (.closedTooOften f.sector)
  setInode h { f with openers := f.openers - 1 }
  if f.openers = 1 then
    unregister t h
    Disk.note (.closed f.sector)
    if f.removed then reclaim t h

/-- Has the sectors of an inode given back once nobody has it open. -/
def remove (h : HandleId) : RegistryM σ Unit := do
  let f ← inode h
  setInode h f.markedRemoved
  Disk.note (.removed f.sector)

def denyWrite (h : HandleId) : RegistryM σ Unit := do
  setInode h (← StateT.lift (← inode h).denyWrite)

def allowWrite (h : HandleId) : RegistryM σ Unit := do
  setInode h (← StateT.lift (← inode h).allowWrite)

def sectorOf (h : HandleId) (position : Nat) : RegistryM σ (Option SectorId) := do
  StateT.lift ((← inode h).record.sectorOf position)

def readAt (h : HandleId) (offset length : Nat) : RegistryM σ Bytes := do
  StateT.lift ((← inode h).readAt offset length)

def readInto {n : Nat} (h : HandleId) (offset : Nat) (buffer : Vector UInt8 n) :
    RegistryM σ (Nat × Vector UInt8 n) := do
  StateT.lift ((← inode h).readInto offset buffer)

def writeAt [Allocator σ] (h : HandleId) (offset : Nat) (bytes : Bytes) : RegistryM σ Nat :=
  transact h fun f => f.writeAt offset bytes

def extend [Allocator σ] (h : HandleId) (target : Nat) :
    RegistryM σ (Except VolumeError SectorId) :=
  transact h fun f => f.extend target

/-- The number of handles that a table has registered. -/
def openCount (t : TableId) : RegistryM σ Nat := do
  return (← table t).registered.length

end RegistryM

end InodeVolume

import InodeVolume.Inode.OpenInode

/-!
Reading and writing at a byte offset. Both go sector by sector and stop early: a read at the end
of the file or at a hole, a write where the file cannot grow further.
-/
namespace InodeVolume

namespace Sector

/-- The 512 bytes from byte `first` on. -/
def ofSlice (bytes : Bytes) (first : Nat) : Sector :=
  Vector.ofFn fun i => bytes.getD (first + i) 0

/-- Replaces `count` bytes from byte `skip` on by those of `bytes` from byte `first` on. -/
def overlay (s : Sector) (skip count : Nat) (bytes : Bytes) (first : Nat) : Sector :=
  Vector.ofFn fun i =>
    if skip ≤ i.val ∧ i.val < skip + count then bytes.getD (first + (i.val - skip)) 0 else s[i]

/-- Copies `count` bytes from byte `skip` on into a buffer, where they begin at byte `first`. Both
ranges lie within their bounds. -/
def copyTo {n : Nat} (s : Sector) (skip count : Nat) (buffer : Vector UInt8 n) (first : Nat)
    (_ : skip + count ≤ 512) (_ : first + count ≤ n) : Vector UInt8 n :=
  Vector.ofFn fun i =>
    if _ : first ≤ i.val ∧ i.val < first + count then s[skip + (i.val - first)] else buffer[i]

end Sector

namespace OpenInode

/-- Appends the bytes from `position` to `stop` to those read so far. -/
def readFrom (f : OpenInode) (obtained : Bytes) (position stop : Nat) : Program Disk Bytes := do
  if _ : position < stop then
    match ← f.record.sectorOf position with
    | none =>
      Disk.note (.unmapped f.sector position)
      return obtained
    | some id =>
      let skip := position % 512
      let count := min (stop - position) (512 - skip)
      let s ← Disk.readSector id.index
      readFrom f (obtained ++ s.toArray.extract skip (skip + count)) (position + count) stop
  else return obtained
termination_by stop - position
decreasing_by omega

/-- Reads at most `length` bytes from `offset` on, never beyond the end of the file. -/
def readAt (f : OpenInode) (offset length : Nat) : Program Disk Bytes := do
  if f.size ≤ offset then return #[]
  let stop ← .sum offset length
  f.readFrom #[] offset (min stop f.size)

/-- Fills the buffer of a caller with the bytes from `position` to `stop`, after the `filled` bytes
that it holds already, and tells how many it holds then. -/
def fillFrom {n : Nat} (f : OpenInode) (position stop : Nat) (buffer : Vector UInt8 n)
    (filled : Nat) (room : filled + (stop - position) ≤ n) :
    Program Disk (Nat × Vector UInt8 n) := do
  if _ : position < stop then
    match ← f.record.sectorOf position with
    | none =>
      Disk.note (.unmapped f.sector position)
      return (filled, buffer)
    | some id =>
      let skip := position % 512
      let count := min (stop - position) (512 - skip)
      let s ← Disk.readSector id.index
      fillFrom f (position + count) stop
        (s.copyTo skip count buffer filled (by omega) (by omega)) (filled + count) (by omega)
  else return (filled, buffer)
termination_by stop - position
decreasing_by omega

/-- Reads into a buffer what `readAt` answers for its length. -/
def readInto {n : Nat} (f : OpenInode) (offset : Nat) (buffer : Vector UInt8 n) :
    Program Disk (Nat × Vector UInt8 n) := do
  if f.size ≤ offset then return (0, buffer)
  .require (offset + n < 0x10000000000000000) .sumOverflow
  f.fillFrom offset (min (offset + n) f.size) buffer 0 (by omega)

/-- The sector of a byte, for which the file grows if it has to. -/
def sectorFor (f : OpenInode) (position : Nat) :
    Program Store (Except VolumeError SectorId × OpenInode) := do
  match ← f.record.sectorOf position with
  | some id => return (.ok id, f)
  | none => f.extend position

/-- Writes `count` of the bytes, which fit into one sector from byte `skip` on. -/
def writeChunk (id : SectorId) (skip count : Nat) (bytes : Bytes) (first : Nat) :
    Program Disk Unit := do
  if count = 512 then Disk.writeSector id.index (Sector.ofSlice bytes first)
  else do
    let s ← Disk.readSector id.index
    Disk.writeSector id.index (s.overlay skip count bytes first)

/-- Moves the end of the file to `stop` if it lies before it. -/
def reach (f : OpenInode) (stop : Nat) : Program Disk OpenInode := do
  if stop ≤ f.size then return f
  let g ← f.resized stop
  g.sync
  return g

/-- Writes the bytes from byte `written` of the buffer on. -/
def writeFrom (f : OpenInode) (offset : Nat) (bytes : Bytes) (written : Nat) :
    Program Store (Nat × OpenInode) := do
  if _ : written < bytes.size then
    let start ← .sum offset written
    let skip := start % 512
    let count := min (bytes.size - written) (512 - skip)
    match ← f.sectorFor start with
    | (.error e, f) =>
      Disk.note (.growthStopped f.sector start e)
      return (written, f)
    | (.ok id, f) =>
      writeChunk id skip count bytes written
      let f ← f.reach (start + count)
      writeFrom f offset bytes (written + count)
  else return (written, f)
termination_by bytes.size - written
decreasing_by omega

/-- Writes the bytes at `offset` and tells how many were taken: none while writing is denied,
fewer than all if the file stops growing. -/
def writeAt (f : OpenInode) (offset : Nat) (bytes : Bytes) :
    Program Store (Nat × OpenInode) := do
  if 0 < f.denials then
    Disk.note (.writeDenied f.sector)
    return (0, f)
  else f.writeFrom offset bytes 0

end OpenInode

end InodeVolume

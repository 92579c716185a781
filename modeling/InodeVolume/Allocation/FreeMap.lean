import InodeVolume.Allocation.Allocator
import InodeVolume.Allocation.BitmapBlock

/-!
The free map of a volume: a bit on the device for each sector, handed out lowest number first.
The map has no state in memory beyond its place and its capacity.
-/
namespace InodeVolume

structure FreeMap where
  /-- The number of the first sector of the map. -/
  start : Nat
  /-- How many sectors the map takes. -/
  blocks : Nat
  /-- How many sectors the map accounts for; the bits beyond are never handed out. -/
  capacity : Nat
  deriving DecidableEq

namespace FreeMap

/-- How many map sectors account for `capacity` sectors. They have a bit for each of them
(`Fits.capacity_le_bits`). -/
def blocksFor (capacity : Nat) : Nat := (capacity + (sectorBits - 1)) / sectorBits

def block (m : FreeMap) (i : Nat) : Program Disk SectorId :=
  .getOrBreach (SectorId.ofIndex? (m.start + i)) .bitmapAtSectorZero

theorem bit_lt (n : Nat) : n % sectorBits < 4096 := Nat.mod_lt _ (by decide)

/-- Marks the sectors below `reserved`, and no other, as used. -/
def reset (m : FreeMap) (reserved : Nat) : Program Disk Unit := do
  .forRange 0 m.blocks fun i => do
    Disk.store (← m.block i) BitmapBlock.empty
  .forRange 0 reserved fun n => do
    Disk.update (← m.block (n / sectorBits)) fun b : BitmapBlock =>
      b.mark (n % sectorBits) (bit_lt n)

/-- Takes the lowest free sector that map sector `i` accounts for. The map sector is written
back in any case. -/
def claimIn (m : FreeMap) (i : Nat) : Program Disk (Option Nat) := do
  let place ← m.block i
  let bits : BitmapBlock ← Disk.load place
  match bits.firstFree? with
  | some bit =>
    let n := sectorBits * i + bit.val
    if n < m.capacity then
      Disk.store place (bits.mark bit.val bit.isLt)
      return some n
    else
      Disk.store place bits
      return none
  | none =>
    Disk.store place bits
    return none

/-- Takes the lowest free sector that one of `count` map sectors from `i` on accounts for. -/
def claimFrom (m : FreeMap) (i : Nat) : Nat → Program Disk (Option SectorId)
  | 0 => return none
  | count + 1 => do
    match ← m.claimIn i with
    | some n => return SectorId.ofIndex? n
    | none => claimFrom m (i + 1) count

def allocate (m : FreeMap) : Program Disk (Option SectorId) := do
  let found ← m.claimFrom 0 m.blocks
  Disk.note (.allocated found)
  return found

def release (m : FreeMap) (id : SectorId) : Program Disk Unit := do
  Disk.note (.released id)
  .require (id.index < m.capacity) (.releaseOutsideDevice id)
  let place ← m.block (id.index / sectorBits)
  let bits : BitmapBlock ← Disk.load place
  .require (bits.isUsed (id.index % sectorBits) (bit_lt _)) (.releasedTwice id)
  Disk.store place (bits.unmark (id.index % sectorBits) (bit_lt _))

/-- The number of bits that are set in `count` map sectors from `i` on, added to `total`. -/
def countUsed (m : FreeMap) (i : Nat) (total : Nat) : Nat → Program Disk Nat
  | 0 => return total
  | count + 1 => do
    let bits : BitmapBlock ← Disk.load (← m.block i)
    countUsed m (i + 1) (total + bits.usedCount) count

def freeCount (m : FreeMap) : Program Disk Nat := do
  let used ← m.countUsed 0 0 m.blocks
  .difference m.capacity used

instance : Allocator FreeMap where
  allocate m := do
    let found ← m.allocate
    return (found, m)
  release m id := do
    m.release id
    return m

end FreeMap

end InodeVolume

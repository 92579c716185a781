import InodeVolume.Sector.Basic

/-!
What ends an operation for good: a device that refuses an access, or a breach of the rules that
the callers of the volume have to keep.
-/
namespace InodeVolume

/-- Why a device refuses a read or a write. -/
inductive Refusal where
  | noSector (index : Nat)
  | partialSector
  | incompleteBlock
  deriving DecidableEq

def Refusal.message : Refusal → String
  | noSector index => s!"device has no sector {index}"
  | partialSector => "device needs a whole sector"
  | incompleteBlock => "not a complete block!"

inductive Breach where
  | bitmapAtSectorZero
  | releaseOutsideDevice (sector : SectorId)
  | releasedTwice (sector : SectorId)
  | listTooLong
  | growthNotCounted
  | growthBeyondRegions
  | missingIndirect
  | missingDoubleIndirect
  | unmappedAfterGrowth
  | closedTooOften (sector : SectorId)
  | deniedTooOften (sector : SectorId)
  | allowedWithoutDenial (sector : SectorId)
  | denialsExceedOpeners
  | sumOverflow
  | differenceOverflow
  | wordOverflow
  | unknownReference
  deriving DecidableEq

def Breach.message : Breach → String
  | bitmapAtSectorZero => "bitmap never starts at sector 0"
  | releaseOutsideDevice sector => s!"sector {sector} is outside the device"
  | releasedTwice sector => s!"sector {sector} is released twice"
  | listTooLong => "capacity overflow"
  | growthNotCounted => "sectors for growth are counted ahead"
  | growthBeyondRegions => "growth beyond the double indirect region"
  | missingIndirect => "indirect block precedes its entries"
  | missingDoubleIndirect => "double indirect block precedes its entries"
  | unmappedAfterGrowth => "block below the allocated end is mapped"
  | closedTooOften sector => s!"inode {sector} closed too many times"
  | deniedTooOften sector => s!"inode {sector} denied writes more times than it is open"
  | allowedWithoutDenial sector => s!"inode {sector} allows writes it never denied"
  | denialsExceedOpeners => "assertion failed: inner.deny_write_cnt <= inner.open_cnt"
  | sumOverflow => "attempt to add with overflow"
  | differenceOverflow => "attempt to subtract with overflow"
  | wordOverflow => "value does not fit a word"
  | unknownReference => "no such handle or table"

inductive Fault where
  | refused (r : Refusal)
  | breach (b : Breach)
  deriving DecidableEq

def Fault.message : Fault → String
  | refused r => r.message
  | breach b => b.message

end InodeVolume

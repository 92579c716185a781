import InodeVolume.Sector.Basic

/-!
The errors that a caller can recover from. An operation that answers one of them has left the
volume as it was.
-/
namespace InodeVolume

inductive VolumeError where
  | noSpace
  | badMagic (sector : SectorId)
  | tooLarge (offset : Nat)
  | notFormatted
  deriving DecidableEq

namespace VolumeError

def message : VolumeError → String
  | noSpace => "no free sector left on the device"
  | badMagic sector => s!"sector {sector} does not hold an inode"
  | tooLarge offset => s!"offset {offset} is beyond the largest addressable file"
  | notFormatted => "device is not formatted as index-fs"

/-- The name of the cause. -/
def label : VolumeError → String
  | noSpace => "NoSpace"
  | badMagic _ => "BadMagic"
  | tooLarge _ => "TooLarge"
  | notFormatted => "NotFormatted"

end VolumeError

end InodeVolume

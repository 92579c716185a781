import InodeVolume.Error
import InodeVolume.Inode.Kind

/-!
Notices are what the volume reports about its work while it works. Each has a severity and a
line of text.
-/
namespace InodeVolume

inductive Severity where
  | error
  | warning
  | info
  | debug
  | trace
  deriving DecidableEq

namespace Severity

/-- Zero for the most severe. -/
def rank : Severity → Nat
  | error => 0
  | warning => 1
  | info => 2
  | debug => 3
  | trace => 4

def label : Severity → String
  | error => "ERROR"
  | warning => "WARN"
  | info => "INFO"
  | debug => "DEBUG"
  | trace => "TRACE"

end Severity

inductive Notice where
  | badSuperBlock
  | formatted (total bitmapSectors : Nat) (root : SectorId)
  | mounted (total : Nat) (root : SectorId)
  | allocated (sector : Option SectorId)
  | released (sector : SectorId)
  | outOfSpace (obtained wanted : Nat)
  | created (sector : SectorId) (kind : InodeKind) (length blocks : Nat)
  | notAnInode (sector : SectorId)
  | opened (sector : SectorId)
  | closed (sector : SectorId)
  | reclaimed (sector : SectorId) (sectors : Nat)
  | removed (sector : SectorId)
  | unmapped (sector : SectorId) (position : Nat)
  | writeDenied (sector : SectorId)
  | growthStopped (sector : SectorId) (position : Nat) (cause : VolumeError)
  | grown (sector : SectorId) (before after sectors : Nat)
  deriving DecidableEq

namespace Notice

def severity : Notice → Severity
  | badSuperBlock | notAnInode _ => .error
  | outOfSpace .. | unmapped .. | writeDenied _ | growthStopped .. => .warning
  | formatted .. | mounted .. => .info
  | created .. | opened _ | closed _ | reclaimed .. | removed _ | grown .. => .debug
  | allocated _ | released _ => .trace

def text : Notice → String
  | badSuperBlock => "error when loading index-fs: bad super block"
  | formatted total bitmapSectors root =>
    s!"format {total} sectors: {bitmapSectors} bitmap sectors, root inode at {root}"
  | mounted total root => s!"mount {total} sectors, root inode at {root}"
  | allocated (some sector) => s!"allocate sector Some(SectorId({sector}))"
  | allocated none => "allocate sector None"
  | released sector => s!"release sector {sector}"
  | outOfSpace obtained wanted =>
    s!"out of space after {obtained} of {wanted} sectors, rolling back"
  | created sector kind length blocks =>
    s!"create inode {sector}: {kind.label}, {length} bytes in {blocks} blocks"
  | notAnInode sector => s!"sector {sector} does not hold an inode"
  | opened sector => s!"open inode {sector}"
  | closed sector => s!"close inode {sector}"
  | reclaimed sector sectors => s!"release inode {sector} with {sectors} sectors"
  | removed sector => s!"remove inode {sector}"
  | unmapped sector position => s!"inode {sector} has no sector for byte {position}"
  | writeDenied sector => s!"inode {sector} is write-denied"
  | growthStopped sector position cause =>
    s!"inode {sector} stops growing at byte {position}: {cause.message}"
  | grown sector before after sectors =>
    s!"inode {sector} grows from {before} to {after} blocks with {sectors} sectors"

/-- The line that a log shows for a notice. -/
def line (n : Notice) : String := s!"{n.severity.label} {n.text}"

end Notice

end InodeVolume

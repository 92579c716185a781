/-!
The two kinds of inode, and the word that records the kind on the device.
-/
namespace InodeVolume

inductive InodeKind where
  | file
  | directory
  deriving DecidableEq

namespace InodeKind

def toWord : InodeKind → UInt32
  | file => 0
  | directory => 1

/-- Every word but the one of a file is read as a directory. -/
def ofWord (w : UInt32) : InodeKind :=
  if w = 0 then file else directory

@[simp] theorem ofWord_toWord (k : InodeKind) : ofWord k.toWord = k := by cases k <;> rfl

/-- The file type bits of the status word. -/
def statusWord : InodeKind → UInt32
  | file => 0o100000
  | directory => 0o040000

def label : InodeKind → String
  | file => "File"
  | directory => "Directory"

end InodeKind

end InodeVolume

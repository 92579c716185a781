import InodeVolume.Inode.OpenInode

/-!
The commands of a session and the replies to them. Volumes, extra inode tables, handles and
sector variables go by name.
-/
namespace InodeVolume

namespace Session

/-- A sector by number or by the name of a variable. -/
inductive SectorRef where
  | number (w : UInt32)
  | named (name : String)

/-- An extra table, or the table of a volume. -/
inductive TableRef where
  | extra (name : String)
  | ofVolume (name : String)

inductive Command where
  | format (volume : String) (total : UInt32)
  | mount (volume : String)
  | free (volume : String)
  | allocate (volume : String) (keepAs : Option String)
  | allocateMany (volume : String) (count : Nat)
  | release (volume : String) (sector : SectorRef)
  | create (volume : String) (length : Nat) (kind : InodeKind) (keepAs : Option String)
  | rationedTable (table volume : String) (budget : Nat)
  | scriptedTable (table : String) (answers : List UInt32)
  | refillBudget (table : String) (budget : Nat)
  | refillScript (table : String) (answers : List UInt32)
  | createAt (table : TableRef) (sector : SectorRef) (length : Nat) (kind : InodeKind)
  | openAt (table : TableRef) (sector : SectorRef) (handle : String)
  | openRoot (volume handle : String)
  | reopen (handle target : String)
  | duplicate (handle target : String)
  | close (table : TableRef) (handle : String)
  | openCount (table : TableRef)
  | same (handle other : String)
  | remove (handle : String)
  | denyWrite (handle : String)
  | allowWrite (handle : String)
  | sectorsOf (handle : String) (positions : List Nat)
  | extend (handle : String) (target : Nat)
  | read (handle : String) (offset length : Nat)
  | write (handle : String) (offset : Nat) (bytes : Bytes)
  | status (handle : String)
  | peek (index first count : Nat)
  | poke (index first : Nat) (words : List UInt32)
  | unknown

/-- A step of a session: a command to the volumes, or an access to the device itself, which may
ask for fewer or more bytes than a sector has. -/
inductive Step where
  | command (c : Command)
  | readDevice (index length : Nat)
  | writeDevice (index : Nat) (block : Bytes)

/-- What is left of a script, and the sectors given back to it, in order. -/
structure ScriptState where
  left : Nat
  freed : List SectorId
  deriving DecidableEq

inductive Reply where
  | nothing
  | flag (b : Bool)
  | number (n : Nat)
  | sector (id : Option SectorId)
  | sectors (ids : List (Option SectorId))
  | words (ws : List UInt32)
  | bytes (content : Bytes)
  | volume (root : SectorId) (capacity : Nat)
  | opened (inode : SectorId) (openers length : Nat)
  | script (state : ScriptState)
  | status (s : InodeStatus) (removed : Bool) (openers : Nat)
  | failed (e : VolumeError)
  /-- A name of the command stands for nothing. -/
  | unset
  | zeroSector
  | badInput
  deriving DecidableEq

end Session

end InodeVolume

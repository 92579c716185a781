import InodeVolume.Program.Disk

/-!
Programs that use a disk and an allocator of sectors. The allocator is known only by its answers,
so what is said of such a program holds over every allocator.
-/
namespace InodeVolume

namespace Store

inductive Request where
  | disk (r : Disk.Request)
  | allocate
  | release (id : SectorId)

@[reducible] def Reply : Request → Type
  | .disk r => Disk.Reply r
  | .allocate => Option SectorId
  | .release _ => Unit

end Store

@[reducible] def Store : Interface := ⟨Store.Request, Store.Reply⟩

namespace Program

variable {α β : Type}

/-- A program that leaves the allocator alone. -/
def onStore : Program Disk α → Program Store α
  | done a => done a
  | fault f => fault f
  | ask r next => ask (I := Store) (.disk r) fun x => (next x).onStore

instance : MonadLift (Program Disk) (Program Store) := ⟨onStore⟩

end Program

namespace Store

/-- A free sector, or none when there is none left. -/
def allocate : Program Store (Option SectorId) :=
  .request (I := Store) .allocate

def release (id : SectorId) : Program Store Unit :=
  .request (I := Store) (.release id)

def releaseAll : List SectorId → Program Store Unit
  | [] => .done ()
  | id :: rest => do
    release id
    releaseAll rest

/-- The most sectors that a list in memory can hold: its bytes are counted by a signed word. -/
def listLimit : Nat := 0x2000000000000000

/-- Obtains `left` more sectors after those of `obtained`, which holds the latest first. -/
def gather (wanted : Nat) (obtained : List SectorId) :
    Nat → Program Store (Except VolumeError (List SectorId))
  | 0 => return .ok obtained.reverse
  | left + 1 => do
    match ← allocate with
    | some id => gather wanted (id :: obtained) left
    | none =>
      Disk.note (.outOfSpace obtained.length wanted)
      releaseAll obtained.reverse
      return .error .noSpace

/-- Obtains `count` sectors, or gives back what it has obtained and fails. -/
def allocateMany (count : Nat) : Program Store (Except VolumeError (List SectorId)) := do
  .require (count < listLimit) .listTooLong
  gather count [] count

end Store

end InodeVolume

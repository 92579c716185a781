import InodeVolume.Program.Disk

/-!
Block devices, and what a program does to one. A run keeps a journal of the sectors that it wrote
and of the notices that it gave, in order, also when it ends with a fault.
-/
namespace InodeVolume

/-- A device answers reads of any length and takes only whole sectors. -/
class BlockDevice (δ : Type) where
  readBlock (d : δ) (index length : Nat) : Except Refusal (Vector UInt8 length)
  /-- Refuses a write, or shows that it brings a whole sector. -/
  acceptWrite (d : δ) (index length : Nat) : Except Refusal (PLift (length = 512))
  put (d : δ) (index : Nat) (s : Sector) : δ
  /-- The bytes that the device holds for a sector, which may be fewer than a sector has. -/
  content (d : δ) (index : Nat) : Bytes

namespace BlockDevice

variable {δ : Type} [BlockDevice δ]

def writeBlock (d : δ) (index : Nat) (block : Bytes) : Except Refusal δ := do
  let ⟨whole⟩ ← acceptWrite d index block.size
  return put d index ⟨block, whole⟩

end BlockDevice

inductive Event where
  | wrote (index : Nat) (s : Sector)
  | noted (m : Notice)

structure World (δ : Type) where
  device : δ
  journal : Array Event := #[]

namespace World

variable {δ : Type}

def notices (w : World δ) : List Notice :=
  w.journal.toList.filterMap fun
    | .noted m => some m
    | .wrote _ _ => none

/-- The sectors written, in the order of the writes. -/
def writes (w : World δ) : List (Nat × Sector) :=
  w.journal.toList.filterMap fun
    | .noted _ => none
    | .wrote n s => some (n, s)

end World

namespace Program

variable {δ α : Type} [BlockDevice δ]

def run : Program Disk α → World δ → Except Fault α × World δ
  | done a, w => (.ok a, w)
  | fault f, w => (.error f, w)
  | ask (.read n) next, w =>
    match BlockDevice.readBlock w.device n 512 with
    | .ok s => run (next s) w
    | .error r => (.error (.refused r), w)
  | ask (.write n s) next, w =>
    match BlockDevice.acceptWrite w.device n 512 with
    | .ok _ =>
      match w with
      | ⟨device, journal⟩ =>
        run (next ()) ⟨BlockDevice.put device n s, journal.push (.wrote n s)⟩
    | .error r => (.error (.refused r), w)
  | ask (.note m) next, w =>
    match w with
    | ⟨device, journal⟩ => run (next ()) ⟨device, journal.push (.noted m)⟩

theorem run_bind {β : Type} (p : Program Disk α) (k : α → Program Disk β) (w : World δ) :
    (p.bind k).run w = match p.run w with
      | (.ok a, w') => (k a).run w'
      | (.error f, w') => (.error f, w') := by
  induction p generalizing w with
  | done a => rfl
  | fault f => rfl
  | ask r next ih =>
    cases r with
    | read n =>
      simp only [ask_bind, run]
      split <;> simp_all
    | write n s =>
      simp only [ask_bind, run]
      split <;> simp_all
    | note m =>
      simp only [ask_bind, run]
      exact ih () _

end Program

end InodeVolume

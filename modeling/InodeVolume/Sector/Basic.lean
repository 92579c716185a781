/-!
Sectors, the units in which a device is read and written, and their numbers. Number zero is
never handed out, so a zero word on the device stands for an absent pointer: `SectorId.ofWord?`
and `SectorId.toWord` are inverse to each other.
-/
namespace InodeVolume

abbrev Bytes := Array UInt8

abbrev sectorSize : Nat := 512

/-- The number of sectors that one sector of the free map accounts for. -/
abbrev sectorBits : Nat := 4096

abbrev Sector := Vector UInt8 512

section Slots

variable {α : Type} {n : Nat}

/-- What a slot of a table holds. -/
def slot (xs : Vector α n) (i : Fin n) : α := xs[i]

def setSlot (xs : Vector α n) (i : Fin n) (a : α) : Vector α n := xs.set i a

theorem slot_eq_getElem (xs : Vector α n) (i : Fin n) : slot xs i = xs[i.val] := rfl

@[simp] theorem slot_setSlot_self (xs : Vector α n) (i : Fin n) (a : α) :
    slot (setSlot xs i a) i = a := by
  simp [slot, setSlot]

theorem slot_setSlot_ne (xs : Vector α n) {i j : Fin n} (a : α) (h : i ≠ j) :
    slot (setSlot xs i a) j = slot xs j := by
  have hv : i.val ≠ j.val := fun e => h (Fin.ext e)
  simp [slot, setSlot, Vector.getElem_set_ne _ _ hv]

end Slots

def Sector.zero : Sector := Vector.replicate 512 0

@[simp] theorem Sector.getElem_zero (i : Nat) (h : i < 512) : Sector.zero[i] = 0 := by
  simp [Sector.zero]

structure SectorId where
  word : UInt32
  word_ne_zero : word ≠ 0
  deriving DecidableEq

namespace SectorId

def ofWord? (w : UInt32) : Option SectorId :=
  if h : w ≠ 0 then some ⟨w, h⟩ else none

/-- The word that stands for a pointer on the device. -/
def toWord : Option SectorId → UInt32
  | some id => id.word
  | none => 0

@[simp] theorem toWord_ofWord? (w : UInt32) : toWord (ofWord? w) = w := by
  unfold ofWord?
  split
  · rfl
  · rename_i h
    simpa [toWord] using Eq.symm (Decidable.not_not.1 h)

@[simp] theorem ofWord?_toWord (p : Option SectorId) : ofWord? (toWord p) = p := by
  cases p with
  | none => simp [toWord, ofWord?]
  | some id => simp [toWord, ofWord?, id.word_ne_zero]

@[simp] theorem ofWord?_zero : ofWord? 0 = none := by simp [ofWord?]

theorem ofWord?_eq_none_iff {w : UInt32} : ofWord? w = none ↔ w = 0 := by
  by_cases h : w = 0 <;> simp [ofWord?, h]

def index (id : SectorId) : Nat := id.word.toNat

theorem index_pos (id : SectorId) : 0 < id.index := by
  rw [Nat.pos_iff_ne_zero]
  intro h
  exact id.word_ne_zero (UInt32.toNat_inj.1 (by simpa [index] using h))

theorem index_lt (id : SectorId) : id.index < 0x100000000 := UInt32.toNat_lt id.word

theorem index_injective {a b : SectorId} (h : a.index = b.index) : a = b := by
  cases a
  cases b
  congr
  exact UInt32.toNat_inj.1 h

/-- Reads a sector number, which is positive and fits a word. -/
def ofIndex? (n : Nat) : Option SectorId :=
  if n < 0x100000000 then ofWord? (UInt32.ofNat n) else none

theorem index_of_ofIndex? {n : Nat} {id : SectorId} (h : ofIndex? n = some id) : id.index = n := by
  unfold ofIndex? ofWord? at h
  split at h
  · split at h
    · cases h
      simp only [index, UInt32.toNat_ofNat']
      omega
    · cases h
  · cases h

@[simp] theorem ofIndex?_index (id : SectorId) : ofIndex? id.index = some id := by
  simpa [ofIndex?, index, ofWord?, id.word_ne_zero] using id.index_lt

theorem ofIndex?_eq_none_iff {n : Nat} : ofIndex? n = none ↔ n = 0 ∨ 0x100000000 ≤ n := by
  unfold ofIndex?
  split
  · rename_i h
    rw [ofWord?_eq_none_iff, ← UInt32.toNat_inj, UInt32.toNat_ofNat']
    simp
    omega
  · simp
    omega

instance : ToString SectorId := ⟨fun id => toString id.index⟩

end SectorId

end InodeVolume

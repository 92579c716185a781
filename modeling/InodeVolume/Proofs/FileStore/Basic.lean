import InodeVolume.Registry.Lifecycle
import InodeVolume.Proofs.Program.Secures
import Mathlib.Data.Finset.Lattice.Union

/-!
The abstract file store that a volume implements: a kind and a string of bytes for each live inode,
the sectors that callers hold, and what is open. `FileStore.Legal` is what callers keep to,
`FileStore.refusal` the assertion that ends a legal operation, `FileStore.Admits` what an operation
may reply, and `FileStore.after` the store after the reply.
-/
namespace InodeVolume

namespace Bytes

/-- Filled up with zeros to `n` bytes, if there are fewer. -/
def padded (b : Bytes) (n : Nat) : Bytes := b ++ Array.replicate (n - b.size) 0

/-- The first `count` bytes of a buffer put over those from `offset` on; zeros fill the gap. -/
def overwritten (b : Bytes) (offset : Nat) (buffer : Bytes) (count : Nat) : Bytes :=
  (padded b offset).extract 0 offset ++ buffer.extract 0 count ++ b.extract (offset + count) b.size

theorem ext_getD {b b' : Bytes} (hs : b.size = b'.size) (h : ∀ p, b.getD p 0 = b'.getD p 0) :
    b = b' := by
  apply Array.ext hs
  intro i hi hi'
  have hp := h i
  simpa [hi, hi'] using hp

theorem getD_of_le {b : Bytes} {p : Nat} (h : b.size ≤ p) : b.getD p 0 = 0 := by
  simp [Array.getD, Nat.not_lt.2 h]

@[simp] theorem size_padded (b : Bytes) (n : Nat) : (padded b n).size = max b.size n := by
  simp [padded]
  omega

@[simp] theorem getD_padded (b : Bytes) (n p : Nat) : (padded b n).getD p 0 = b.getD p 0 := by
  by_cases hp : p < b.size
  · simp [padded, Array.getElem?_append, hp]
  · simp [padded, Array.getElem?_append, hp, Array.getElem?_replicate]
    split <;> rfl

theorem size_overwritten {b buffer : Bytes} {offset count : Nat} (h : count ≤ buffer.size) :
    (overwritten b offset buffer count).size = max b.size (offset + count) := by
  simp [overwritten]
  omega

theorem getD_append (a b : Bytes) (p : Nat) :
    (a ++ b).getD p 0 = if p < a.size then a.getD p 0 else b.getD (p - a.size) 0 := by
  rw [Array.getD_eq_getD_getElem?, Array.getElem?_append]
  by_cases hp : p < a.size
  · rw [if_pos hp, if_pos hp, Array.getD_eq_getD_getElem?]
  · rw [if_neg hp, if_neg hp, Array.getD_eq_getD_getElem?]

theorem getD_extract (a : Bytes) (start stop p : Nat) :
    (a.extract start stop).getD p 0 = if start + p < stop then a.getD (start + p) 0 else 0 := by
  rw [Array.getD_eq_getD_getElem?, Array.getElem?_extract, Array.getD_eq_getD_getElem?]
  by_cases h : start + p < stop
  · rw [if_pos h]
    by_cases hs : start + p < a.size
    · rw [if_pos (by omega)]
    · rw [if_neg (by omega), Array.getElem?_eq_none (by omega)]
  · rw [if_neg h, if_neg (by omega)]
    rfl

theorem getD_overwritten {b buffer : Bytes} {offset count : Nat} (h : count ≤ buffer.size)
    (p : Nat) : (overwritten b offset buffer count).getD p 0 =
      if offset ≤ p ∧ p < offset + count then buffer.getD (p - offset) 0 else b.getD p 0 := by
  have hsize : ((padded b offset).extract 0 offset).size = offset := by
    simp
  have hcount : (buffer.extract 0 count).size = count := by
    simp
    omega
  rw [overwritten, getD_append, Array.size_append, hsize, hcount]
  by_cases hend : p < offset + count
  · rw [if_pos hend, getD_append, hsize]
    by_cases hp : p < offset
    · rw [if_pos hp, if_neg (by omega), getD_extract, if_pos (by omega), Nat.zero_add, getD_padded]
    · rw [if_neg hp, if_pos (by omega), getD_extract, if_pos (by omega), Nat.zero_add]
  · rw [if_neg hend, if_neg (by omega), getD_extract]
    rw [show offset + count + (p - (offset + count)) = p by omega]
    by_cases hb : p < b.size
    · rw [if_pos hb]
    · rw [if_neg hb, getD_of_le (Nat.le_of_not_lt hb)]
end Bytes

/-- What an inode is to its users. -/
structure File where
  kind : InodeKind
  bytes : Bytes

namespace File

/-- A file of zeros. -/
def blank (kind : InodeKind) (length : Nat) : File := ⟨kind, Array.replicate length 0⟩

@[simp] theorem size_blank (kind : InodeKind) (length : Nat) :
    (blank kind length).bytes.size = length := by
  simp [blank]

def extended (f : File) (target : Nat) : File := { f with bytes := f.bytes.padded (target + 1) }

/-- The file after a write that took `count` bytes. -/
def written (f : File) (offset : Nat) (buffer : Bytes) (count : Nat) : File :=
  if count = 0 then f else { f with bytes := f.bytes.overwritten offset buffer count }

end File

/-- What is known of an inode while it is open. -/
structure OpenFile where
  inode : SectorId
  openers : Nat
  removed : Bool
  denials : Nat

inductive Operation where
  | create (length : Nat) (kind : InodeKind)
  | createAt (sector : SectorId) (length : Nat) (kind : InodeKind)
  | openAt (sector : SectorId)
  | reopen (h : HandleId)
  | close (h : HandleId)
  | remove (h : HandleId)
  | denyWrite (h : HandleId)
  | allowWrite (h : HandleId)
  | sectorOf (h : HandleId) (position : Nat)
  | readAt (h : HandleId) (offset length : Nat)
  | writeAt (h : HandleId) (offset : Nat) (buffer : Bytes)
  | extend (h : HandleId) (target : Nat)
  | status (h : HandleId)
  | allocate
  | allocateMany (count : Nat)
  | release (sector : SectorId)

namespace Operation

@[reducible] def Reply : Operation → Type
  | create _ _ => Except VolumeError SectorId
  | createAt _ _ _ => Except VolumeError Unit
  | openAt _ => Except VolumeError HandleId
  | reopen _ => Unit
  | close _ => Unit
  | remove _ => Unit
  | denyWrite _ => Unit
  | allowWrite _ => Unit
  | sectorOf _ _ => Option SectorId
  | readAt _ _ _ => Bytes
  | writeAt _ _ _ => Nat
  | extend _ _ => Except VolumeError SectorId
  | status _ => InodeStatus
  | allocate => Option SectorId
  | allocateMany _ => Except VolumeError (List SectorId)
  | release _ => Unit

/-- The operation on the volume of a table. -/
def perform {σ : Type} [Allocator σ] (t : TableId) : (o : Operation) → RegistryM σ o.Reply
  | create length kind => RegistryM.served t (Store.create length kind)
  | createAt sector length kind => RegistryM.served t (Store.createAt sector length kind)
  | openAt sector => RegistryM.openAt t sector
  | reopen h => RegistryM.reopen h
  | close h => RegistryM.close t h
  | remove h => RegistryM.remove h
  | denyWrite h => RegistryM.denyWrite h
  | allowWrite h => RegistryM.allowWrite h
  | sectorOf h position => RegistryM.sectorOf h position
  | readAt h offset length => RegistryM.readAt h offset length
  | writeAt h offset buffer => RegistryM.writeAt h offset buffer
  | extend h target => RegistryM.extend h target
  | status h => do return (← RegistryM.inode h).status
  | allocate => RegistryM.served t Store.allocate
  | allocateMany count => RegistryM.served t (Store.allocateMany count)
  | release sector => RegistryM.served t (Store.release sector)

end Operation

structure FileStore where
  /-- The inodes that there are; a removed one stays until its last opener closes it. -/
  live : Finset SectorId
  file : SectorId → File
  /-- The sectors that callers got from the allocator and have not given back. -/
  held : Finset SectorId
  opened : HandleId → Option OpenFile

namespace FileStore

variable (st : FileStore)

/-- The store with an empty root directory and nothing open. -/
def initial (root : SectorId) : FileStore where
  live := {root}
  file _ := .blank .directory 0
  held := ∅
  opened _ := none

def setFile (s : SectorId) (f : File) : FileStore :=
  { st with file := Function.update st.file s f }

def setOpened (h : HandleId) (f : Option OpenFile) : FileStore :=
  { st with opened := Function.update st.opened h f }

@[simp] theorem opened_setOpened_self (h : HandleId) (f : Option OpenFile) :
    (st.setOpened h f).opened h = f := Function.update_self _ _ _

theorem opened_setOpened_of_ne {h k : HandleId} (hne : k ≠ h) (f : Option OpenFile) :
    (st.setOpened h f).opened k = st.opened k := Function.update_of_ne hne _ _

@[simp] theorem file_setFile_self (s : SectorId) (f : File) : (st.setFile s f).file s = f :=
  Function.update_self _ _ _

theorem file_setFile_of_ne {s t : SectorId} (hne : t ≠ s) (f : File) :
    (st.setFile s f).file t = st.file t := Function.update_of_ne hne _ _

def addFile (s : SectorId) (f : File) : FileStore :=
  { st.setFile s f with live := insert s st.live }

def dropFile (s : SectorId) : FileStore := { st with live := st.live.erase s }

def holding (held : Finset SectorId) : FileStore := { st with held := held }

/-- The file behind an open handle. -/
def fileOf (f : OpenFile) : File := st.file f.inode

/-- Changes what is known of an open handle. -/
def modifyOpened (h : HandleId) (change : OpenFile → OpenFile) : FileStore :=
  st.setOpened h ((st.opened h).map change)

/-- One opener less; with the last one the handle goes, and a removed inode with it. -/
def closed (h : HandleId) : FileStore :=
  match st.opened h with
  | none => st
  | some f =>
    if f.openers = 1 then
      if f.removed then (st.setOpened h none).dropFile f.inode else st.setOpened h none
    else st.setOpened h (some { f with openers := f.openers - 1 })

/-- One opener more, or the first one. -/
def reopened (h : HandleId) (s : SectorId) : FileStore :=
  match st.opened h with
  | some f => st.setOpened h (some { f with openers := f.openers + 1 })
  | none => st.setOpened h (some ⟨s, 1, false, 0⟩)

/-- Callers open live inodes, use handles while they are open and give back what they hold. -/
def Legal : Operation → Prop
  | .create _ _ => True
  | .createAt sector _ _ => sector ∈ st.held
  | .openAt sector => sector ∈ st.live
  | .reopen h => ∃ f, st.opened h = some f
  | .close h => ∃ f, st.opened h = some f
  | .remove h => ∃ f, st.opened h = some f
  | .denyWrite h => ∃ f, st.opened h = some f
  | .allowWrite h => ∃ f, st.opened h = some f
  | .sectorOf h _ => ∃ f, st.opened h = some f
  | .readAt h _ length => (∃ f, st.opened h = some f) ∧ length < 2 ^ 63
  | .writeAt h offset _ => (∃ f, st.opened h = some f) ∧ offset < 2 ^ 64
  | .extend h _ => ∃ f, st.opened h = some f
  | .status h => ∃ f, st.opened h = some f
  | .allocate => True
  | .allocateMany _ => True
  | .release sector => sector ∈ st.held

/-- The assertion that a legal operation runs into, if any. -/
def refusal : Operation → Option Breach
  | .denyWrite h =>
    match st.opened h with
    | some f => if f.denials + 1 ≤ f.openers then none else some (.deniedTooOften f.inode)
    | none => none
  | .allowWrite h =>
    match st.opened h with
    | some f =>
      if f.denials = 0 then some (.allowedWithoutDenial f.inode)
      else if f.denials ≤ f.openers then none else some .denialsExceedOpeners
    | none => none
  | .allocateMany count => if count < Store.listLimit then none else some .listTooLong
  | _ => none

/-- The replies that the store admits. -/
def Admits : (o : Operation) → o.Reply → Prop
  | .create length _, .ok s => length ≤ maxFileSize ∧ s ∉ st.live ∧ s ∉ st.held
  | .create length _, .error e => e = .noSpace ∨ e = .tooLarge length ∧ maxFileSize < length
  | .createAt sector length _, .ok () => length ≤ maxFileSize ∧ sector ∉ st.live
  | .createAt _ length _, .error e => e = .noSpace ∨ e = .tooLarge length ∧ maxFileSize < length
  | .openAt sector, .ok h =>
    match st.opened h with
    | some f => f.inode = sector
    | none => ∀ h' f, st.opened h' = some f → f.inode ≠ sector
  | .openAt _, .error _ => False
  | .sectorOf h position, x => ∀ f, st.opened h = some f → (x.isSome ↔
    position ≤ (st.fileOf f).bytes.size ∧ position / 512 < dataBlocks (st.fileOf f).bytes.size)
  | .readAt h offset length, x => ∀ f, st.opened h = some f →
    x = (st.fileOf f).bytes.extract offset (offset + length)
  | .writeAt h offset buffer, count => ∀ f, st.opened h = some f →
    count ≤ buffer.size ∧ (0 < f.denials → count = 0) ∧
    (count < buffer.size → 0 < f.denials ∨
      dataBlocks ((st.fileOf f).written offset buffer count).bytes.size ≤ (offset + count) / 512)
  | .extend _ target, .ok _ => target < maxFileSize
  | .extend h target, .error e => ∀ f, st.opened h = some f →
    e = .noSpace ∧ dataBlocks (st.fileOf f).bytes.size ≤ target / 512 ∨
      e = .tooLarge target ∧ maxFileSize ≤ target
  | .status h, x => ∀ f, st.opened h = some f → x =
    ⟨f.inode.index, (st.fileOf f).kind, (st.fileOf f).bytes.size,
      totalSectors (dataBlocks (st.fileOf f).bytes.size)⟩
  | .allocate, some s => s ∉ st.live ∧ s ∉ st.held
  | .allocateMany count, .ok ids =>
    ids.Nodup ∧ ids.length = count ∧ ∀ s ∈ ids, s ∉ st.live ∧ s ∉ st.held
  | .allocateMany _, .error e => e = .noSpace
  | _, _ => True

/-- The store after an operation that made a reply. -/
def after : (o : Operation) → o.Reply → FileStore
  | .create length kind, .ok s => st.addFile s (.blank kind length)
  | .createAt s length kind, .ok () =>
    (st.addFile s (.blank kind length)).holding (st.held.erase s)
  | .openAt s, .ok h => st.reopened h s
  | .reopen h, _ => st.modifyOpened h fun f => { f with openers := f.openers + 1 }
  | .close h, _ => st.closed h
  | .remove h, _ => st.modifyOpened h fun f => { f with removed := true }
  | .denyWrite h, _ => st.modifyOpened h fun f => { f with denials := f.denials + 1 }
  | .allowWrite h, _ => st.modifyOpened h fun f => { f with denials := f.denials - 1 }
  | .writeAt h offset buffer, count =>
    match st.opened h with
    | some f => st.setFile f.inode ((st.fileOf f).written offset buffer count)
    | none => st
  | .extend h target, .ok _ =>
    match st.opened h with
    | some f => st.setFile f.inode ((st.fileOf f).extended target)
    | none => st
  | .allocate, some s => st.holding (insert s st.held)
  | .allocateMany _, .ok ids => st.holding (st.held ∪ ids.toFinset)
  | .release s, _ => st.holding (st.held.erase s)
  | _, _ => st

variable {st : FileStore} {h k : HandleId} {f g : OpenFile}

theorem modifyOpened_eq (hf : st.opened h = some f) (change : OpenFile → OpenFile) :
    st.modifyOpened h change = st.setOpened h (some (change f)) := by
  rw [modifyOpened, hf, Option.map_some]

theorem opened_remove_self (hf : st.opened h = some f) :
    (st.after (.remove h) ()).opened h = some { f with removed := true } := by
  rw [after, modifyOpened_eq hf, opened_setOpened_self]

theorem after_openAt (hh : st.opened h = none) (s : SectorId) :
    st.after (.openAt s) (.ok h) = st.setOpened h (some ⟨s, 1, false, 0⟩) := by
  rw [after, reopened, hh]

theorem lt_of_refusal_denyWrite (hf : st.opened h = some f)
    (hrefusal : st.refusal (.denyWrite h) = none) : f.denials + 1 ≤ f.openers := by
  rw [refusal, hf] at hrefusal
  by_contra hlt
  exact Option.some_ne_none _ ((if_neg hlt).symm.trans hrefusal)

theorem le_of_refusal_allowWrite (hf : st.opened h = some f)
    (hrefusal : st.refusal (.allowWrite h) = none) : 0 < f.denials ∧ f.denials ≤ f.openers := by
  rw [refusal, hf] at hrefusal
  by_cases hzero : f.denials = 0
  · exact absurd ((if_pos hzero).symm.trans hrefusal) (Option.some_ne_none _)
  · refine ⟨Nat.pos_of_ne_zero hzero, ?_⟩
    by_contra hle
    exact Option.some_ne_none _ (((if_neg hzero).trans (if_neg hle)).symm.trans hrefusal)

theorem lt_of_refusal_allocateMany {count : Nat}
    (hrefusal : st.refusal (.allocateMany count) = none) : count < Store.listLimit := by
  by_contra hlt
  exact Option.some_ne_none _ ((if_neg hlt).symm.trans hrefusal)

theorem closed_eq (hf : st.opened h = some f) : st.closed h =
    if f.openers = 1 then
      if f.removed then (st.setOpened h none).dropFile f.inode else st.setOpened h none
    else st.setOpened h (some { f with openers := f.openers - 1 }) := by
  rw [closed, hf]

/-- A close changes what is open, and may take an inode away. -/
theorem exists_closed_eq (st : FileStore) (h : HandleId) : ∃ live opened, live ⊆ st.live ∧
    st.closed h = { st with live := live, opened := opened } := by
  unfold closed
  split
  · exact ⟨_, _, Finset.Subset.refl _, rfl⟩
  · split
    · split
      · exact ⟨_, _, Finset.erase_subset _ _, rfl⟩
      · exact ⟨_, _, Finset.Subset.refl _, rfl⟩
    · exact ⟨_, _, Finset.Subset.refl _, rfl⟩

/-- Opening an inode changes what is open behind one handle. -/
theorem exists_reopened_eq (st : FileStore) (h : HandleId) (s : SectorId) :
    ∃ f, st.reopened h s = st.setOpened h (some f) := by
  unfold reopened
  split
  · exact ⟨_, rfl⟩
  · exact ⟨_, rfl⟩

/-- A write changes nothing but files. -/
theorem exists_after_writeAt_eq (st : FileStore) (h : HandleId) (offset : Nat) (buffer : Bytes)
    (count : Nat) : ∃ file, st.after (.writeAt h offset buffer) count = { st with file := file } := by
  rw [after]
  split
  · exact ⟨_, rfl⟩
  · exact ⟨_, rfl⟩

/-- An extension changes nothing but files. -/
theorem exists_after_extend_eq (st : FileStore) (h : HandleId) (target : Nat)
    (x : Except VolumeError SectorId) :
    ∃ file, st.after (.extend h target) x = { st with file := file } := by
  cases x with
  | error e => exact ⟨_, rfl⟩
  | ok id =>
    rw [after]
    split
    · exact ⟨_, rfl⟩
    · exact ⟨_, rfl⟩

theorem opened_setOpened_some : (st.setOpened h (some f)).opened k = some g ↔
    k = h ∧ g = f ∨ k ≠ h ∧ st.opened k = some g := by
  by_cases hk : k = h
  · subst hk
    simp [eq_comm]
  · rw [st.opened_setOpened_of_ne hk]
    simp [hk]

theorem opened_setOpened_none :
    (st.setOpened h none).opened k = some g ↔ k ≠ h ∧ st.opened k = some g := by
  by_cases hk : k = h
  · subst hk
    simp
  · rw [st.opened_setOpened_of_ne hk]
    exact (and_iff_right hk).symm

end FileStore

end InodeVolume

import InodeVolume.Inode.Mapping
import InodeVolume.Proofs.Program.Secures

/-!
The pointers of an inode. A slot is a place for a pointer: in the record, or in an index block that
another slot points to. `InodeRecord.pointerAt` reads a slot off an image. Each slot is needed from
one block on, its `first`; an inode of `n` blocks has a pointer exactly in the slots whose first
block lies below `n`.
-/
namespace InodeVolume

/-- A slot for the pointer to an index block. -/
inductive IndexSlot where
  | indirect (outer : Fin 24)
  | double
  | doubleEntry (outer : Fin 128)
  deriving DecidableEq

inductive PointerSlot where
  | index (p : IndexSlot)
  | data (a : BlockAddress)
  deriving DecidableEq

/-- The first block that needs the index block of a slot. -/
def IndexSlot.first : IndexSlot → Nat
  | indirect outer => 100 + 128 * outer
  | double => 3172
  | doubleEntry outer => 3172 + 128 * outer

def PointerSlot.first : PointerSlot → Nat
  | index p => p.first
  | data a => a.toIndex

@[simp] theorem PointerSlot.first_data (a : BlockAddress) : (data a).first = a.toIndex := rfl

@[simp] theorem PointerSlot.first_index (p : IndexSlot) : (index p).first = p.first := rfl

theorem BlockAddress.toIndex_injective {a b : BlockAddress} (h : a.toIndex = b.toIndex) :
    a = b := by
  have ha := ofIndex?_toIndex a
  rw [h, ofIndex?_toIndex b] at ha
  exact (Option.some.inj ha).symm

def indexBlock (d : Image) (id : SectorId) : IndexBlock := decode (d id.index)

/-- What an index block holds in a place; nothing where there is no such block. -/
def entry (d : Image) (p : Option SectorId) (i : Fin 128) : Option SectorId :=
  match p with
  | some id => slot (indexBlock d id).pointers i
  | none => none

/-- The image after an entry of an index block is set. -/
def Image.setEntry (d : Image) (x : SectorId) (i : Fin 128) (id : SectorId) : Image :=
  Function.update d x.index (encode ((indexBlock d x).set i id))

namespace InodeRecord

def indexAt (r : InodeRecord) (d : Image) : IndexSlot → Option SectorId
  | .indirect outer => slot r.indirect outer
  | .double => r.doubleIndirect
  | .doubleEntry outer => entry d r.doubleIndirect outer

/-- The sector that holds the block at an address. -/
def dataAt (r : InodeRecord) (d : Image) : BlockAddress → Option SectorId
  | .direct i => slot r.direct i
  | .indirect outer inner => entry d (r.indexAt d (.indirect outer)) inner
  | .doubleIndirect outer inner => entry d (r.indexAt d (.doubleEntry outer)) inner

def pointerAt (r : InodeRecord) (d : Image) : PointerSlot → Option SectorId
  | .index p => r.indexAt d p
  | .data a => r.dataAt d a

section Equations

variable (r : InodeRecord) (d : Image)

@[simp] theorem indexAt_indirect (outer : Fin 24) :
    r.indexAt d (.indirect outer) = slot r.indirect outer := rfl

@[simp] theorem indexAt_double : r.indexAt d .double = r.doubleIndirect := rfl

@[simp] theorem indexAt_doubleEntry (outer : Fin 128) :
    r.indexAt d (.doubleEntry outer) = entry d r.doubleIndirect outer := rfl

@[simp] theorem dataAt_direct (i : Fin 100) : r.dataAt d (.direct i) = slot r.direct i := rfl

@[simp] theorem dataAt_indirect (outer : Fin 24) (inner : Fin 128) :
    r.dataAt d (.indirect outer inner) = entry d (slot r.indirect outer) inner := rfl

@[simp] theorem dataAt_doubleIndirect (outer inner : Fin 128) :
    r.dataAt d (.doubleIndirect outer inner) =
      entry d (entry d r.doubleIndirect outer) inner := rfl

@[simp] theorem pointerAt_index (p : IndexSlot) : r.pointerAt d (.index p) = r.indexAt d p := rfl

@[simp] theorem pointerAt_data (a : BlockAddress) : r.pointerAt d (.data a) = r.dataAt d a := rfl

end Equations

end InodeRecord

section Entries

variable {d : Image} {p : Option SectorId} {i : Fin 128} {x : SectorId}

theorem indexBlock_congr {d' : Image} {id : SectorId} (h : d' id.index = d id.index) :
    indexBlock d' id = indexBlock d id := by
  rw [indexBlock, h, indexBlock]

theorem indexBlock_update_self (b : IndexBlock) :
    indexBlock (Function.update d x.index (encode b)) x = b := by
  rw [indexBlock, Function.update_self, IndexBlock.decode_encode]

@[simp] theorem entry_none : entry d none i = none := by
  rw [entry]

theorem entry_some : entry d (some x) i = slot (indexBlock d x).pointers i := by
  rw [entry]

theorem entry_congr {d' : Image} (h : ∀ id, p = some id → d' id.index = d id.index) :
    entry d' p i = entry d p i := by
  cases p with
  | none => simp only [entry_none]
  | some id => rw [entry_some, entry_some, indexBlock_congr (h id rfl)]

theorem entry_update_of_ne {s : Sector} (h : p ≠ some x) :
    entry (Function.update d x.index s) p i = entry d p i := by
  apply entry_congr
  rintro id rfl
  have hne : id.index ≠ x.index := fun he => h (congrArg some (SectorId.index_injective he))
  exact Function.update_of_ne hne _ _

theorem entry_of_empty (h : indexBlock d x = IndexBlock.empty) : entry d (some x) i = none := by
  rw [entry_some, h]
  simp [IndexBlock.empty, slot_eq_getElem]

theorem entry_setEntry_of_ne {id : SectorId} {j : Fin 128} (h : p ≠ some x) :
    entry (d.setEntry x i id) p j = entry d p j := entry_update_of_ne h

/-- Setting an entry of one block changes this entry alone. -/
theorem entry_setEntry {id : SectorId} {j : Fin 128} :
    entry (d.setEntry x i id) p j = if p = some x ∧ j = i then some id else entry d p j := by
  by_cases hp : p = some x
  · subst hp
    rw [entry_some, entry_some, Image.setEntry, indexBlock_update_self, IndexBlock.set]
    by_cases hj : j = i
    · subst hj
      simp
    · have hij : i ≠ j := fun he => hj he.symm
      simp [hj, slot_setSlot_ne _ _ hij]
  · rw [entry_setEntry_of_ne hp, if_neg fun h => hp h.1]

end Entries

/-- A set of slots that hold pairwise different pointers: exactly those of `P`. -/
structure Linked (look : PointerSlot → Option SectorId) (dom : PointerSlot → Prop)
    (P : Finset SectorId) : Prop where
  isSome_iff (s : PointerSlot) : (look s).isSome ↔ dom s
  injective {s t : PointerSlot} {id : SectorId} : look s = some id → look t = some id → s = t
  mem_iff (id : SectorId) : id ∈ P ↔ ∃ s, look s = some id

namespace Linked

variable {look : PointerSlot → Option SectorId} {dom : PointerSlot → Prop} {P : Finset SectorId}

theorem mem (h : Linked look dom P) {s : PointerSlot} {id : SectorId} (hs : look s = some id) :
    id ∈ P := (h.mem_iff id).2 ⟨s, hs⟩

theorem ne_some (h : Linked look dom P) {s : PointerSlot} {id : SectorId} (hid : id ∉ P) :
    look s ≠ some id := fun hs => hid (h.mem hs)

theorem eq_none (h : Linked look dom P) {s : PointerSlot} (hs : ¬ dom s) : look s = none := by
  rw [← Option.not_isSome_iff_eq_none, h.isSome_iff]
  exact hs

theorem exists_some (h : Linked look dom P) {s : PointerSlot} (hs : dom s) :
    ∃ id, look s = some id := Option.isSome_iff_exists.1 ((h.isSome_iff s).2 hs)

theorem congr {dom' : PointerSlot → Prop} (h : Linked look dom P) (hd : ∀ s, dom s ↔ dom' s) :
    Linked look dom' P where
  isSome_iff s := (h.isSome_iff s).trans (hd s)
  injective := h.injective
  mem_iff := h.mem_iff

/-- A new pointer goes into a free slot. -/
theorem attach (h : Linked look dom P) {s : PointerSlot} {id : SectorId} (hs : ¬ dom s)
    (hid : id ∉ P) : Linked (Function.update look s (some id)) (fun t => t = s ∨ dom t)
      (insert id P) where
  isSome_iff t := by
    by_cases ht : t = s
    · simp [ht]
    · simp [ht, h.isSome_iff]
  injective {t u x} ht hu := by
    by_cases hts : t = s <;> by_cases hus : u = s
    · rw [hts, hus]
    · subst hts
      rw [Function.update_self, Option.some.injEq] at ht
      rw [Function.update_of_ne hus] at hu
      exact absurd (ht ▸ h.mem hu) hid
    · subst hus
      rw [Function.update_self, Option.some.injEq] at hu
      rw [Function.update_of_ne hts] at ht
      exact absurd (hu ▸ h.mem ht) hid
    · rw [Function.update_of_ne hts] at ht
      rw [Function.update_of_ne hus] at hu
      exact h.injective ht hu
  mem_iff x := by
    rw [Finset.mem_insert, h.mem_iff]
    constructor
    · rintro (rfl | ⟨t, ht⟩)
      · exact ⟨s, Function.update_self _ _ _⟩
      · have hts : t ≠ s := by
          rintro rfl
          rw [h.eq_none hs] at ht
          cases ht
        exact ⟨t, by rw [Function.update_of_ne hts, ht]⟩
    · rintro ⟨t, ht⟩
      by_cases hts : t = s
      · subst hts
        rw [Function.update_self, Option.some.injEq] at ht
        exact Or.inl ht.symm
      · rw [Function.update_of_ne hts] at ht
        exact Or.inr ⟨t, ht⟩

end Linked

namespace InodeRecord

variable {r : InodeRecord} {d : Image}

/-- Only the index blocks decide what the slots hold. -/
theorem pointerAt_congr {d' : Image}
    (h : ∀ p id, r.indexAt d p = some id → d' id.index = d id.index) :
    r.pointerAt d' = r.pointerAt d := by
  have hi : ∀ p, r.indexAt d' p = r.indexAt d p := by
    intro p
    cases p with
    | indirect outer => simp only [indexAt_indirect]
    | double => simp only [indexAt_double]
    | doubleEntry outer => exact entry_congr (h .double)
  funext s
  cases s with
  | index p => exact hi p
  | data a =>
    cases a with
    | direct i => simp only [pointerAt_data, dataAt_direct]
    | indirect outer inner => exact entry_congr (h (.indirect outer))
    | doubleIndirect outer inner =>
      have ho := hi (.doubleEntry outer)
      rw [indexAt_doubleEntry, indexAt_doubleEntry] at ho
      rw [pointerAt_data, pointerAt_data, dataAt_doubleIndirect, dataAt_doubleIndirect, ho]
      exact entry_congr (h (.doubleEntry outer))

theorem pointerAt_update_of_ne {x : SectorId} {s : Sector}
    (h : ∀ p, r.indexAt d p ≠ some x) :
    r.pointerAt (Function.update d x.index s) = r.pointerAt d := by
  apply pointerAt_congr
  intro p id hp
  have hne : id.index ≠ x.index := fun he => h p (SectorId.index_injective he ▸ hp)
  exact Function.update_of_ne hne _ _

section Links

variable {x id : SectorId}

/-- A direct pointer is set. -/
theorem pointerAt_setDirect (i : Fin 100) :
    ({ r with direct := setSlot r.direct i (some id) } : InodeRecord).pointerAt d =
      Function.update (r.pointerAt d) (.data (.direct i)) (some id) := by
  funext s
  by_cases hs : s = .data (.direct i)
  · subst hs
    simp
  · rw [Function.update_of_ne hs]
    cases s with
    | index p => cases p <;> simp
    | data a =>
      cases a with
      | direct j =>
        have hij : i ≠ j := by
          rintro rfl
          exact hs rfl
        simp [slot_setSlot_ne _ _ hij]
      | indirect outer inner => simp
      | doubleIndirect outer inner => simp

/-- An empty index block comes into the record. -/
theorem pointerAt_setIndirect (outer : Fin 24) (hfree : slot r.indirect outer = none)
    (hid : indexBlock d id = IndexBlock.empty) :
    ({ r with indirect := setSlot r.indirect outer (some id) } : InodeRecord).pointerAt d =
      Function.update (r.pointerAt d) (.index (.indirect outer)) (some id) := by
  funext s
  by_cases hs : s = .index (.indirect outer)
  · subst hs
    simp
  · rw [Function.update_of_ne hs]
    cases s with
    | index p =>
      cases p with
      | indirect o =>
        have ho : outer ≠ o := by
          rintro rfl
          exact hs rfl
        simp [slot_setSlot_ne _ _ ho]
      | double => simp
      | doubleEntry o => simp
    | data a =>
      cases a with
      | direct j => simp
      | indirect o inner =>
        by_cases ho : outer = o
        · subst ho
          simp [hfree, entry_of_empty hid]
        · simp [slot_setSlot_ne _ _ ho]
      | doubleIndirect o inner => simp

/-- An empty upper index block comes into the record. -/
theorem pointerAt_setDouble (hfree : r.doubleIndirect = none)
    (hid : indexBlock d id = IndexBlock.empty) :
    ({ r with doubleIndirect := some id } : InodeRecord).pointerAt d =
      Function.update (r.pointerAt d) (.index .double) (some id) := by
  funext s
  by_cases hs : s = .index .double
  · subst hs
    simp
  · rw [Function.update_of_ne hs]
    cases s with
    | index p =>
      cases p with
      | indirect o => simp
      | double => exact absurd rfl hs
      | doubleEntry o => simp [hfree, entry_of_empty hid]
    | data a =>
      cases a with
      | direct j => simp
      | indirect o inner => simp
      | doubleIndirect o inner => simp [hfree, entry_of_empty hid]

section Entries

variable (hinj : ∀ p q y, r.indexAt d p = some y → r.indexAt d q = some y → p = q) (i : Fin 128)
include hinj

/-- A data pointer is set in an index block of the record. -/
theorem pointerAt_setIndirectEntry {outer : Fin 24} (hx : slot r.indirect outer = some x) :
    r.pointerAt (d.setEntry x i id) =
      Function.update (r.pointerAt d) (.data (.indirect outer i)) (some id) := by
  have hdouble : r.doubleIndirect ≠ some x := fun he => by
    cases hinj .double (.indirect outer) x he hx
  funext s
  cases s with
  | index p => cases p <;> simp [entry_setEntry_of_ne hdouble]
  | data a =>
    cases a with
    | direct j => simp
    | indirect o j =>
      have ho : slot r.indirect o = some x ↔ o = outer :=
        ⟨fun he => IndexSlot.indirect.inj (hinj (.indirect o) (.indirect outer) x he hx),
          fun he => he ▸ hx⟩
      simp [entry_setEntry, ho, Function.update_apply]
    | doubleIndirect o j =>
      have hne : entry d r.doubleIndirect o ≠ some x := fun he => by
        cases hinj (.doubleEntry o) (.indirect outer) x he hx
      simp [entry_setEntry_of_ne hdouble, entry_setEntry_of_ne hne]

/-- An empty index block comes into the upper index block. -/
theorem pointerAt_setDoubleEntry (hx : r.doubleIndirect = some x)
    (hfree : entry d r.doubleIndirect i = none) (hne : id ≠ x)
    (hid : indexBlock d id = IndexBlock.empty) :
    r.pointerAt (d.setEntry x i id) =
      Function.update (r.pointerAt d) (.index (.doubleEntry i)) (some id) := by
  have hempty (j : Fin 128) : entry (d.setEntry x i id) (some id) j = none := by
    rw [entry_setEntry_of_ne (by simpa using hne), entry_of_empty hid]
  have hindirect (o : Fin 24) : slot r.indirect o ≠ some x := fun he => by
    cases hinj (.indirect o) .double x he hx
  funext s
  cases s with
  | index p => cases p <;> simp [entry_setEntry, hx, Function.update_apply]
  | data a =>
    cases a with
    | direct j => simp
    | indirect o j => simp [entry_setEntry_of_ne (hindirect o)]
    | doubleIndirect o j =>
      by_cases ho : o = i
      · subst ho
        rw [hx] at hfree
        simp [entry_setEntry, hx, hempty, hfree]
      · have hne : entry d r.doubleIndirect o ≠ some x := fun he => by
          cases hinj (.doubleEntry o) .double x he hx
        simp [entry_setEntry, ho, entry_setEntry_of_ne hne]

/-- A data pointer is set in an index block below the upper one. -/
theorem pointerAt_setDoubleLeaf {outer : Fin 128}
    (hx : entry d r.doubleIndirect outer = some x) :
    r.pointerAt (d.setEntry x i id) =
      Function.update (r.pointerAt d) (.data (.doubleIndirect outer i)) (some id) := by
  have hdouble : r.doubleIndirect ≠ some x := fun he => by
    cases hinj .double (.doubleEntry outer) x he hx
  funext s
  cases s with
  | index p => cases p <;> simp [entry_setEntry_of_ne hdouble]
  | data a =>
    cases a with
    | direct j => simp
    | indirect o j =>
      have hne : slot r.indirect o ≠ some x := fun he => by
        cases hinj (.indirect o) (.doubleEntry outer) x he hx
      simp [entry_setEntry_of_ne hne]
    | doubleIndirect o j =>
      have ho : entry d r.doubleIndirect o = some x ↔ o = outer :=
        ⟨fun he => IndexSlot.doubleEntry.inj
          (hinj (.doubleEntry o) (.doubleEntry outer) x he hx), fun he => he ▸ hx⟩
      simp [entry_setEntry_of_ne hdouble, entry_setEntry, ho, Function.update_apply]

end Entries

end Links

end InodeRecord

end InodeVolume

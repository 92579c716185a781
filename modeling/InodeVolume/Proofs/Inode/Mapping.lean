import InodeVolume.Proofs.Inode.Pointers
import Mathlib.Data.List.FinRange
import Mathlib.Data.List.Nodup

/-!
Looking up blocks and collecting pointers. The programs that do so answer what the slots of the
image say and change nothing: `blockAt` is the sector of a block, `byteAt` the byte at a position,
and `pointers` the set of all sectors that a record reaches.
-/
namespace InodeVolume

namespace InodeRecord

/-- The sector that holds a block. -/
def blockAt (r : InodeRecord) (d : Image) (index : Nat) : Option SectorId :=
  (BlockAddress.ofIndex? index).bind (r.dataAt d)

/-- The byte at a position; zero where there is no block. -/
def byteAt (r : InodeRecord) (d : Image) (position : Nat) : UInt8 :=
  match r.blockAt d (position / 512) with
  | some id => getElem (d id.index) (position % 512) (mod_lt_sectorSize position)
  | none => 0

variable {r : InodeRecord} {d : Image} {n : Nat} {id : SectorId}

theorem blockAt_toIndex (a : BlockAddress) : r.blockAt d a.toIndex = r.dataAt d a := by
  rw [blockAt, BlockAddress.ofIndex?_toIndex, Option.bind_some]

theorem blockAt_eq_some_iff :
    r.blockAt d n = some id ↔ ∃ a : BlockAddress, a.toIndex = n ∧ r.dataAt d a = some id := by
  constructor
  · intro h
    obtain ⟨a, ha, hid⟩ := Option.bind_eq_some_iff.1 h
    exact ⟨a, BlockAddress.toIndex_of_ofIndex? ha, hid⟩
  · rintro ⟨a, rfl, hid⟩
    rw [blockAt_toIndex, hid]

theorem blockAt_congr {r' : InodeRecord} {d' : Image}
    (h : ∀ a : BlockAddress, a.toIndex = n → r'.dataAt d' a = r.dataAt d a) :
    r'.blockAt d' n = r.blockAt d n :=
  Option.bind_congr fun a ha => h a (BlockAddress.toIndex_of_ofIndex? ha)

theorem byteAt_of_some (h : r.blockAt d (n / 512) = some id) :
    r.byteAt d n = getElem (d id.index) (n % 512) (mod_lt_sectorSize n) := by
  rw [byteAt, h]

theorem byteAt_of_none (h : r.blockAt d (n / 512) = none) : r.byteAt d n = 0 := by
  rw [byteAt, h]

section Lookup

open Program

variable {A : Nat → Prop} {G : Image → Image → Prop} {Q : Option SectorId → Image → Prop}
  (hA : ∀ p id, r.indexAt d p = some id → A id.index)

include hA

theorem resolve_ensures {a : BlockAddress} (h : Q (r.dataAt d a) d) :
    (r.resolve a).Ensures A G Q d := by
  cases a with
  | direct i => exact h
  | indirect outer inner =>
    rw [dataAt_indirect] at h
    rw [resolve]
    cases hx : slot r.indirect outer with
    | none =>
      rw [hx, entry_none] at h
      exact h
    | some x =>
      rw [hx, entry_some] at h
      simp only [bind_eq, ensures_bind, ensures_load]
      exact ⟨hA (.indirect outer) x hx, h⟩
  | doubleIndirect outer inner =>
    rw [dataAt_doubleIndirect] at h
    rw [resolve]
    cases hx : r.doubleIndirect with
    | none =>
      rw [hx, entry_none, entry_none] at h
      exact h
    | some x =>
      rw [hx, entry_some, indexBlock] at h
      simp only [bind_eq, ensures_bind, ensures_load]
      refine ⟨hA .double x hx, ?_⟩
      cases hy : slot (decode (d x.index) : IndexBlock).pointers outer with
      | none =>
        rw [hy, entry_none] at h
        exact h
      | some y =>
        rw [hy, entry_some] at h
        simp only [ensures_bind, ensures_load]
        refine ⟨hA (.doubleEntry outer) y ?_, h⟩
        rw [indexAt_doubleEntry, hx, entry_some]
        exact hy

theorem blockSector_ensures (h : Q (r.blockAt d n) d) : (r.blockSector n).Ensures A G Q d := by
  unfold blockSector
  rw [blockAt] at h
  cases ha : BlockAddress.ofIndex? n with
  | none =>
    rw [ha] at h
    exact h
  | some a =>
    rw [ha] at h
    exact resolve_ensures hA h

theorem sectorOf_ensures (h : Q (if r.size < n then none else r.blockAt d (n / 512)) d) :
    (r.sectorOf n).Ensures A G Q d := by
  unfold sectorOf
  split
  · rename_i hn
    rw [if_pos hn] at h
    exact h
  · rename_i hn
    rw [if_neg hn] at h
    exact blockSector_ensures hA h

end Lookup

end InodeRecord

/-- The slots that the index block of a slot holds. -/
def IndexSlot.child : IndexSlot → Fin 128 → PointerSlot
  | indirect outer, inner => .data (.indirect outer inner)
  | double, outer => .index (.doubleEntry outer)
  | doubleEntry outer, inner => .data (.doubleIndirect outer inner)

namespace PointerSlot

/-- The slots that an index block holds, followed by its own slot. -/
def below (p : IndexSlot) : List PointerSlot := (List.finRange 128).map p.child ++ [index p]

/-- All slots, in the order in which the sectors of an inode are given back. -/
def all : List PointerSlot :=
  (List.finRange 100).map (fun i => data (.direct i)) ++
    ((List.finRange 24).flatMap (fun o => below (.indirect o)) ++
      ((List.finRange 128).flatMap (fun o => below (.doubleEntry o)) ++ [index .double]))

theorem mem_below {p : IndexSlot} {s : PointerSlot} :
    s ∈ below p ↔ (∃ i, s = p.child i) ∨ s = index p := by
  simp [below, eq_comm]

theorem mem_all (s : PointerSlot) : s ∈ all := by
  simp only [all, List.mem_append, List.mem_map, List.mem_flatMap, List.mem_finRange, true_and,
    mem_below, List.mem_singleton]
  cases s with
  | index p =>
    cases p with
    | indirect o => exact Or.inr (Or.inl ⟨o, Or.inr rfl⟩)
    | double => exact Or.inr (Or.inr (Or.inr rfl))
    | doubleEntry o => exact Or.inr (Or.inr (Or.inl ⟨o, Or.inr rfl⟩))
  | data a =>
    cases a with
    | direct i => exact Or.inl ⟨i, rfl⟩
    | indirect o i => exact Or.inr (Or.inl ⟨o, Or.inl ⟨i, rfl⟩⟩)
    | doubleIndirect o i => exact Or.inr (Or.inr (Or.inl ⟨o, Or.inl ⟨i, rfl⟩⟩))

theorem nodup_below {p : IndexSlot} (hp : p ≠ .double) : (below p).Nodup := by
  refine List.nodup_append'.2 ⟨(List.nodup_finRange 128).map ?_, List.nodup_singleton _, ?_⟩
  · intro i j hij
    cases p with
    | indirect o => simpa [IndexSlot.child] using hij
    | double => exact absurd rfl hp
    | doubleEntry o => simpa [IndexSlot.child] using hij
  · cases p with
    | indirect o => simp [IndexSlot.child, List.Disjoint]
    | double => exact absurd rfl hp
    | doubleEntry o => simp [IndexSlot.child, List.Disjoint]

/-- Different index blocks hold different slots. -/
theorem disjoint_below {p q : IndexSlot} (hp : p ≠ .double) (hq : q ≠ .double) (h : p ≠ q) :
    List.Disjoint (below p) (below q) := by
  intro s hs ht
  rw [mem_below] at hs ht
  cases p with
  | double => exact hp rfl
  | indirect o =>
    cases q with
    | double => exact hq rfl
    | indirect o' => rcases hs with ⟨i, rfl⟩ | rfl <;> simp_all [IndexSlot.child]
    | doubleEntry o' => rcases hs with ⟨i, rfl⟩ | rfl <;> simp_all [IndexSlot.child]
  | doubleEntry o =>
    cases q with
    | double => exact hq rfl
    | indirect o' => rcases hs with ⟨i, rfl⟩ | rfl <;> simp_all [IndexSlot.child]
    | doubleEntry o' => rcases hs with ⟨i, rfl⟩ | rfl <;> simp_all [IndexSlot.child]

theorem nodup_all : all.Nodup := by
  have hindirect : ((List.finRange 24).flatMap fun o => below (.indirect o)).Nodup := by
    refine List.nodup_flatMap.2 ⟨fun o _ => nodup_below (by simp), ?_⟩
    exact (List.nodup_finRange 24).imp fun h => disjoint_below (by simp) (by simp) (by simpa)
  have hdouble : ((List.finRange 128).flatMap fun o => below (.doubleEntry o)).Nodup := by
    refine List.nodup_flatMap.2 ⟨fun o _ => nodup_below (by simp), ?_⟩
    exact (List.nodup_finRange 128).imp fun h => disjoint_below (by simp) (by simp) (by simpa)
  refine List.nodup_append'.2 ⟨(List.nodup_finRange 100).map fun i j hij => by simpa using hij,
    List.nodup_append'.2 ⟨hindirect, List.nodup_append'.2 ⟨hdouble, List.nodup_singleton _, ?_⟩,
      ?_⟩, ?_⟩
  · intro s hs ht
    obtain rfl : s = index .double := by simpa using ht
    simp [mem_below, IndexSlot.child] at hs
  · intro s hs ht
    obtain ⟨o, -, ho⟩ := List.mem_flatMap.1 hs
    rcases List.mem_append.1 ht with ht | ht
    · obtain ⟨o', -, ho'⟩ := List.mem_flatMap.1 ht
      exact disjoint_below (by simp) (by simp) (by simp) ho ho'
    · obtain rfl : s = index .double := by simpa using ht
      simp [mem_below, IndexSlot.child] at ho
  · intro s hs ht
    obtain ⟨i, rfl⟩ : ∃ i, data (.direct i) = s := by simpa using hs
    simp [mem_below, IndexSlot.child] at ht

end PointerSlot

/-- The present ones of some pointers to index blocks, each behind the entries of its block. -/
def indexedIn (d : Image) (ids : List SectorId) : List SectorId :=
  ids.flatMap fun id => (indexBlock d id).present ++ [id]

theorem filterMap_id_toList {n : Nat} (xs : Vector (Option SectorId) n) :
    xs.toList.filterMap id = (List.finRange n).filterMap (slot xs) := by
  have h : xs.toList = (List.finRange n).map (slot xs) := by
    apply List.ext_getElem
    · simp
    · intro i _ _
      simp [slot_eq_getElem]
  rw [h, List.filterMap_map]
  rfl

theorem IndexBlock.present_eq (b : IndexBlock) :
    b.present = (List.finRange 128).filterMap (slot b.pointers) :=
  filterMap_id_toList b.pointers

namespace InodeRecord

variable {r : InodeRecord} {d : Image}

theorem pointerAt_child (p : IndexSlot) (i : Fin 128) :
    r.pointerAt d (p.child i) = entry d (r.indexAt d p) i := by
  cases p <;> rfl

theorem filterMap_below (p : IndexSlot) : (PointerSlot.below p).filterMap (r.pointerAt d) =
    indexedIn d ((r.indexAt d p).toList) := by
  cases h : r.indexAt d p with
  | none => simp [PointerSlot.below, pointerAt_child, h, indexedIn]
  | some x =>
    simp [PointerSlot.below, pointerAt_child, h, indexedIn, entry_some, IndexBlock.present_eq]

theorem filterMap_flatMap_below {n : Nat} (f : Fin n → IndexSlot) :
    ((List.finRange n).flatMap fun o => PointerSlot.below (f o)).filterMap (r.pointerAt d) =
      indexedIn d ((List.finRange n).filterMap fun o => r.indexAt d (f o)) := by
  induction List.finRange n with
  | nil => rfl
  | cons o l ih =>
    rw [List.flatMap_cons, List.filterMap_append, ih, filterMap_below]
    cases h : r.indexAt d (f o) <;> simp [indexedIn, h]

/-- The pointers of an inode in the order of `PointerSlot.all`. -/
def pointerList (r : InodeRecord) (d : Image) : List SectorId :=
  PointerSlot.all.filterMap (r.pointerAt d)

theorem pointerList_eq : r.pointerList d = r.direct.toList.filterMap id ++
    indexedIn d (r.indirect.toList.filterMap id) ++
    indexedIn d ((List.finRange 128).filterMap (entry d r.doubleIndirect)) ++
    r.doubleIndirect.toList := by
  have hd : ((List.finRange 100).map fun i => PointerSlot.data (.direct i)).filterMap
      (r.pointerAt d) = r.direct.toList.filterMap id := by
    rw [filterMap_id_toList, List.filterMap_map]
    rfl
  rw [pointerList, PointerSlot.all, List.filterMap_append, List.filterMap_append,
    List.filterMap_append, hd, filterMap_flatMap_below, filterMap_flatMap_below,
    filterMap_id_toList r.indirect]
  cases h : r.doubleIndirect <;> simp [h]

/-- Every sector that a record reaches. -/
def pointers (r : InodeRecord) (d : Image) : Finset SectorId := (r.pointerList d).toFinset

theorem toFinset_pointerList : (r.pointerList d).toFinset = r.pointers d := rfl

theorem mem_pointers {x : SectorId} : x ∈ r.pointers d ↔ ∃ s, r.pointerAt d s = some x := by
  simp [pointers, pointerList, PointerSlot.mem_all]

section Reachable

open Program

variable {A : Nat → Prop} {G : Image → Image → Prop} {Q : List SectorId → Image → Prop}

theorem indexedSectors_ensures {ids : List SectorId} (hA : ∀ id ∈ ids, A id.index)
    (h : Q (indexedIn d ids) d) : (indexedSectors ids).Ensures A G Q d := by
  induction ids generalizing Q with
  | nil => exact h
  | cons x rest ih =>
    simp only [indexedSectors, bind_eq, pure_eq, ensures_bind, ensures_load, ensures_done]
    refine ⟨hA x (by simp), ih (fun y hy => hA y (by simp [hy])) ?_⟩
    simpa [indexedIn, indexBlock] using h

/-- Collecting the pointers finds those of all slots. -/
theorem reachable_ensures (hA : ∀ p id, r.indexAt d p = some id → A id.index)
    (h : Q (r.pointerList d) d) : r.reachable.Ensures A G Q d := by
  rw [pointerList_eq] at h
  have hindirect : ∀ x ∈ r.indirect.toList.filterMap id, A x.index := by
    intro x hx
    rw [filterMap_id_toList, List.mem_filterMap] at hx
    obtain ⟨o, -, ho⟩ := hx
    exact hA (.indirect o) x ho
  rw [reachable, bind_eq, ensures_bind]
  refine indexedSectors_ensures hindirect ?_
  cases hx : r.doubleIndirect with
  | none => simpa [hx, indexedIn] using h
  | some x =>
    have hbelow : (decode (d x.index) : IndexBlock).present =
        (List.finRange 128).filterMap (entry d r.doubleIndirect) := by
      rw [IndexBlock.present_eq, hx]
      rfl
    simp only [bind_eq, ensures_bind, ensures_load]
    refine ⟨hA .double x hx, indexedSectors_ensures ?_ ?_⟩
    · intro y hy
      rw [hbelow, List.mem_filterMap] at hy
      obtain ⟨o, -, ho⟩ := hy
      exact hA (.doubleEntry o) y ho
    · rw [hbelow]
      simpa [hx] using h

end Reachable

end InodeRecord

namespace Linked

variable {r : InodeRecord} {d : Image} {dom : PointerSlot → Prop} {P : Finset SectorId}

theorem nodup_pointerList (h : Linked (r.pointerAt d) dom P) : (r.pointerList d).Nodup :=
  PointerSlot.nodup_all.filterMap fun _ _ _ hs ht => h.injective hs ht

theorem pointers_eq (h : Linked (r.pointerAt d) dom P) : r.pointers d = P := by
  ext x
  rw [InodeRecord.mem_pointers, h.mem_iff]

end Linked

end InodeVolume

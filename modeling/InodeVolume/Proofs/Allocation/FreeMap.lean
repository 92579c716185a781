import InodeVolume.Proofs.Allocation.NumberSet
import InodeVolume.Proofs.Program.Secures
import Mathlib.Data.Finset.Image

/-!
The free map as a lender. `m.Tracks d U` says that the bits set on the image are those of the
sectors before the end of the map and of the sectors of `U`, and no others. Each allocation and
each release keeps that, with one bit changed by one write.
-/
namespace InodeVolume

namespace FreeMap

/-- The map lies behind the super block and accounts for sectors of the device alone. -/
structure Fits (m : FreeMap) (size : Nat) : Prop where
  start_pos : 0 < m.start
  blocks_eq : m.blocks = blocksFor m.capacity
  reserved_le : m.reserved ≤ m.capacity
  capacity_le : m.capacity ≤ size
  capacity_lt : m.capacity < 0x100000000

structure Tracks (m : FreeMap) (d : Image) (U : Finset SectorId) : Prop where
  reserved_le {id : SectorId} : id ∈ U → m.reserved ≤ id.index
  index_lt {id : SectorId} : id ∈ U → id.index < m.capacity
  marks_iff (n : Nat) : n < sectorBits * m.blocks →
    (m.marks d n = true ↔ n < m.reserved ∨ Owned U n)

/-- The sector of a number is taken. -/
def Taken (m : FreeMap) (U : Finset SectorId) (n : Nat) : Prop := n < m.reserved ∨ Owned U n

/-- The sectors in use, by number. -/
def usedNumbers (m : FreeMap) (U : Finset SectorId) : Finset Nat :=
  Finset.range m.reserved ∪ U.image SectorId.index

variable {m : FreeMap} {size : Nat} {d d' : Image} {U : Finset SectorId} {id : SectorId}
  {i n : Nat}

theorem mem_usedNumbers : n ∈ m.usedNumbers U ↔ m.Taken U n := by
  rw [usedNumbers, Finset.mem_union, Finset.mem_range, Finset.mem_image]
  rfl

theorem index_mem_usedNumbers (hid : id ∈ U) : id.index ∈ m.usedNumbers U :=
  mem_usedNumbers.2 (Or.inr (owned_of_mem hid))

theorem usedNumbers_insert : m.usedNumbers (insert id U) = insert id.index (m.usedNumbers U) := by
  rw [usedNumbers, Finset.image_insert, Finset.union_insert, ← usedNumbers]

theorem usedNumbers_erase (hid : m.reserved ≤ id.index) :
    m.usedNumbers (U.erase id) = (m.usedNumbers U).erase id.index := by
  have himage := Finset.image_erase (fun _ _ => SectorId.index_injective) U id
  have hrange : id.index ∉ Finset.range m.reserved := by
    rw [Finset.mem_range]
    exact Nat.not_lt.2 hid
  rw [usedNumbers, usedNumbers, himage, Finset.erase_union_distrib, Finset.erase_eq_of_notMem hrange]

namespace Fits

theorem capacity_le_bits (h : m.Fits size) : m.capacity ≤ sectorBits * m.blocks := by
  rw [h.blocks_eq, blocksFor]
  simp only [sectorBits]
  omega

theorem lies (h : m.Fits size) : m.Lies size where
  start_pos := h.start_pos
  reserved_le := h.reserved_le.trans h.capacity_le
  reserved_le_word := h.reserved_le.trans (Nat.le_of_lt h.capacity_lt)
  capacity_le_bits := h.capacity_le_bits
  capacity_lt := h.capacity_lt

theorem lt_of_inMap (h : m.Fits size) (hn : m.InMap n) : n < size := h.lies.lt_of_inMap hn

theorem not_inMap_zero (h : m.Fits size) : ¬ m.InMap 0 := fun hzero =>
  Nat.not_lt.2 hzero.1 h.start_pos

theorem zero_mem (h : m.Fits size) (U : Finset SectorId) : 0 ∈ m.usedNumbers U :=
  mem_usedNumbers.2 (Or.inl (Nat.lt_of_lt_of_le h.start_pos (Nat.le_add_right _ _)))

end Fits

namespace Tracks

theorem congr (h : m.Tracks d U) (hd : ∀ i, i < m.blocks → d' (m.start + i) = d (m.start + i)) :
    m.Tracks d' U where
  reserved_le := h.reserved_le
  index_lt := h.index_lt
  marks_iff n hn := by
    rw [marks_congr (hd _ (Nat.div_lt_of_lt_mul hn))]
    exact h.marks_iff n hn

/-- The map does not lie in lent sectors. -/
theorem not_inMap (h : m.Tracks d U) (hn : Owned U n) : ¬ m.InMap n := by
  obtain ⟨id, hid, rfl⟩ := hn
  exact fun hmap => Nat.not_lt.2 (h.reserved_le hid) hmap.2

/-- What is written to lent sectors does not change the map. -/
theorem frame (h : m.Tracks d U) (hd : ∀ n, ¬ Owned U n → d' n = d n) : m.Tracks d' U :=
  h.congr fun _ hi => hd _ fun ho => h.not_inMap ho (inMap_start_add hi)

theorem write (h : m.Tracks d U) (hid : id ∈ U) (s : Sector) :
    m.Tracks (Function.update d id.index s) U := by
  refine h.frame fun n hn => Function.update_of_ne ?_ _ _
  rintro rfl
  exact hn (owned_of_mem hid)

/-- What is written to the map spares the lent sectors. -/
theorem agree (h : m.Tracks d U) (hd : ∀ n, ¬ m.InMap n → d' n = d n) : Agree U d d' :=
  fun _ hid => hd _ (h.not_inMap (owned_of_mem hid))

theorem records (h : m.Tracks d U) (hm : m.Fits size) : m.Records d (m.usedNumbers U) where
  lt_capacity hn := by
    rcases mem_usedNumbers.1 hn with hlt | ⟨id, hid, rfl⟩
    · exact Nat.lt_of_lt_of_le hlt hm.reserved_le
    · exact h.index_lt hid
  marks_iff hn := (h.marks_iff _ hn).trans mem_usedNumbers.symm

theorem of_records (h : m.Records d (m.usedNumbers U)) (hU : ∀ id ∈ U, m.reserved ≤ id.index) :
    m.Tracks d U where
  reserved_le hid := hU _ hid
  index_lt hid := h.lt_capacity (index_mem_usedNumbers hid)
  marks_iff _ hn := (h.marks_iff hn).trans mem_usedNumbers

theorem marks_of_mem (h : m.Tracks d U) (hm : m.Fits size) (hid : id ∈ U) :
    m.marks d id.index = true :=
  (h.records hm).marks_of_mem hm.lies (index_mem_usedNumbers hid)

end Tracks

section Allocation

open Program

/-- What a map does on the way: lent sectors are spared, and their bits stay set. -/
def Keeps (m : FreeMap) (d : Image) (U : Finset SectorId) (_ d₂ : Image) : Prop :=
  Agree U d d₂ ∧ ∀ id ∈ U, m.marks d₂ id.index = true

theorem Tracks.keeps {V : Finset SectorId} {d₁ d₂ : Image} (h : m.Tracks d U) (hV : V ⊆ U)
    (hr : m.Retains (m.usedNumbers V) d₁ d₂) (hd : ∀ n, ¬ m.InMap n → d₂ n = d n) :
    m.Keeps d V d₁ d₂ :=
  ⟨(h.agree hd).mono hV, fun _ hid => hr _ (index_mem_usedNumbers hid)⟩

/-- The map hands out the lowest sector that is not taken, and refuses only when all that it
accounts for is taken. -/
theorem allocate_ensures (hm : m.Fits size) (h : m.Tracks d U) :
    m.allocate.Ensures m.InMap (m.Keeps d U)
      (fun x d' => Agree U d d' ∧ match x with
        | none => m.Tracks d' U ∧ ∀ n, n < m.capacity → m.Taken U n
        | some id => id ∉ U ∧ m.Tracks d' (insert id U) ∧ ∀ n, n < id.index → m.Taken U n) d := by
  refine (allocate_records hm.lies (h.records hm) (hm.zero_mem U)).frame.mono (fun _ => id)
    (fun _ _ hg => h.keeps (Finset.Subset.refl U) hg.1 hg.2) ?_
  rintro (_ | id) d' ⟨hpost, hd⟩
  · obtain ⟨rfl, hfull⟩ := hpost
    exact ⟨agree_refl U _, h, fun n hn => mem_usedNumbers.1 (hfull n hn)⟩
  · obtain ⟨-, hnew, hlowest, hrecords⟩ := hpost
    rw [mem_usedNumbers] at hnew
    rw [← usedNumbers_insert] at hrecords
    refine ⟨h.agree hd, fun hid => hnew (Or.inr (owned_of_mem hid)), .of_records hrecords ?_,
      fun n hn => mem_usedNumbers.1 (hlowest n hn)⟩
    intro x hx
    rcases Finset.mem_insert.1 hx with rfl | hx
    · exact Nat.le_of_not_lt fun hlt => hnew (Or.inl hlt)
    · exact h.reserved_le hx

theorem release_ensures (hm : m.Fits size) (h : m.Tracks d U) (hid : id ∈ U) :
    (m.release id).Ensures m.InMap (m.Keeps d (U.erase id))
      (fun _ d' => Agree (U.erase id) d d' ∧ m.Tracks d' (U.erase id)) d := by
  have hsubset := Finset.erase_subset id U
  have hset := usedNumbers_erase (U := U) (h.reserved_le hid)
  refine (release_records hm.lies (h.records hm) (index_mem_usedNumbers hid)).frame.mono
    (fun _ hn => hn) (fun _ _ hg => h.keeps hsubset (hset ▸ hg.1) hg.2) ?_
  rintro _ d' ⟨hrecords, hd⟩
  refine ⟨(h.agree hd).mono hsubset, .of_records (hset ▸ hrecords) fun x hx => ?_⟩
  exact h.reserved_le (Finset.mem_of_mem_erase hx)

/-- The free map lends sectors: what it has lent is what its bits say. -/
def lender (hm : m.Fits size) : Lender FreeMap size where
  lends a d U := a = m ∧ m.Tracks d U
  marked d U := ∀ id ∈ U, m.marks d id.index = true
  index_lt h hid := Nat.lt_of_lt_of_le (h.2.index_lt hid) hm.capacity_le
  marked_of_lends h _ hid := h.2.marks_of_mem hm hid
  write h hid := ⟨h.1, h.2.write hid _⟩
  allocate {a d U} h := by
    obtain ⟨rfl, h⟩ := h
    simp only [Allocator.allocate, bind_eq, pure_eq, ensures_bind, ensures_done]
    refine (allocate_ensures hm h).mono (fun _ hn => hm.lt_of_inMap hn) (fun _ _ hg => hg) ?_
    rintro (_ | id) d' ⟨hd, hpost⟩
    · exact ⟨hd, rfl, hpost.1⟩
    · exact ⟨hd, hpost.1, rfl, hpost.2.1⟩
  release {a d U id} h hid := by
    obtain ⟨rfl, h⟩ := h
    simp only [Allocator.release, bind_eq, pure_eq, ensures_bind, ensures_done]
    refine (release_ensures hm h hid).mono (fun _ hn => hm.lt_of_inMap hn) (fun _ _ hg => hg) ?_
    rintro _ d' ⟨hd, hpost⟩
    exact ⟨hd, trivial, hpost⟩

/-- The map lies behind sector 0, so as a lender it keeps what is there. -/
def lenderKeeping (hm : m.Fits size) (s : Sector) : Lender FreeMap size where
  lends a d U := (lender hm).lends a d U ∧ d 0 = s
  marked := (lender hm).marked
  index_lt h hid := (lender hm).index_lt h.1 hid
  marked_of_lends h := (lender hm).marked_of_lends h.1
  write {a d U id t} h hid :=
    ⟨(lender hm).write h.1 hid, (Function.update_of_ne (Nat.ne_of_lt id.index_pos) _ _).trans h.2⟩
  allocate {a d U} h := by
    obtain ⟨⟨rfl, h⟩, rfl⟩ := h
    simp only [Allocator.allocate, bind_eq, pure_eq, ensures_bind, ensures_done]
    refine (allocate_ensures hm h).frame.mono (fun _ hn => hm.lt_of_inMap hn)
      (fun _ _ hg => hg.1) ?_
    rintro (_ | id) d' ⟨⟨hd, hpost⟩, hframe⟩
    · exact ⟨hd, ⟨rfl, hpost.1⟩, hframe 0 hm.not_inMap_zero⟩
    · exact ⟨hd, hpost.1, ⟨rfl, hpost.2.1⟩, hframe 0 hm.not_inMap_zero⟩
  release {a d U id} h hid := by
    obtain ⟨⟨rfl, h⟩, rfl⟩ := h
    simp only [Allocator.release, bind_eq, pure_eq, ensures_bind, ensures_done]
    refine (release_ensures hm h hid).frame.mono (fun _ hn => hm.lt_of_inMap hn)
      (fun _ _ hg => hg.1) ?_
    rintro _ d' ⟨⟨hd, hpost⟩, hframe⟩
    exact ⟨hd, ⟨rfl, hpost⟩, hframe 0 hm.not_inMap_zero⟩

end Allocation

end FreeMap

end InodeVolume

import InodeVolume.Proofs.Allocation.FreeMap
import Mathlib.Algebra.GroupWithZero.Nat
import Mathlib.Data.Finset.Card
import Mathlib.Data.Finset.Image
import Mathlib.Data.Finset.Range

/-!
Counting what the free map says: there are as many set bits as used numbers, which are those of the
reserved sectors and of the lent ones.
-/
namespace InodeVolume

theorem countP_range_add (p : Nat → Bool) (m n : Nat) :
    (List.range (m + n)).countP p =
      (List.range m).countP p + (List.range n).countP fun i => p (m + i) := by
  rw [List.range_add, List.countP_append, List.countP_map]
  rfl

/-- A count in chunks of equal length. -/
theorem countP_range_mul (p : Nat → Bool) (k n : Nat) :
    (List.range (k * n)).countP p =
      ((List.range n).map fun i => (List.range k).countP fun j => p (k * i + j)).sum := by
  induction n with
  | zero => simp
  | succ n ih =>
    rw [Nat.mul_succ, countP_range_add, ih, List.range_succ, List.map_append, List.sum_append]
    simp

theorem BitmapBlock.usedCount_eq (b : BitmapBlock) : b.usedCount =
    (List.range sectorBits).countP fun n => b.isUsed (n % sectorBits) (FreeMap.bit_lt n) := by
  have hlist : b.groups.toList =
      (List.range 64).map fun i => if h : i < 64 then b.groups[i] else 0 := by
    apply List.ext_getElem
    · simp
    · intro i hi _
      have hi' : i < 64 := by simpa using hi
      simp [hi']
  have hfold (gs : List UInt64) (n : Nat) :
      gs.foldl (fun n group => n + countOnes group) n = n + (gs.map countOnes).sum := by
    induction gs generalizing n with
    | nil => simp
    | cons g gs ih => simp [ih, Nat.add_assoc]
  have hrange : List.range sectorBits = List.range (64 * 64) := rfl
  rw [usedCount, ← Vector.foldl_toList, hfold, Nat.zero_add, hlist, List.map_map, hrange,
    countP_range_mul]
  refine congrArg List.sum (List.map_congr_left fun i hi => List.countP_congr fun j hj => ?_)
  have hi' : i < 64 := List.mem_range.1 hi
  have hj' : j < 64 := List.mem_range.1 hj
  have hmod : (64 * i + j) % (64 * 64) = 64 * i + j := by omega
  have hdiv : (64 * i + j) / 64 = i := by omega
  have hrem : (64 * i + j) % 64 = j := by omega
  simp [isUsed, hmod, hdiv, hrem, hi']

namespace FreeMap

open Program

variable {m : FreeMap} {size : Nat} {d : Image} {used : Finset Nat} {U : Finset SectorId}
  {A : Nat → Prop} {G : Image → Image → Prop} {Q : Nat → Image → Prop}

theorem countUsed_ensures {i total count : Nat} (hm : m.Lies size) (hA : ∀ n, m.InMap n → A n)
    (hi : i + count ≤ m.blocks)
    (hQ : Q (total + (List.range (sectorBits * count)).countP
      fun n => m.marks d (sectorBits * i + n)) d) :
    (m.countUsed i total count).Ensures A G Q d := by
  induction count generalizing i total with
  | zero =>
    rw [countUsed]
    simpa using hQ
  | succ count ih =>
    rw [countUsed, bind_eq, ensures_bind]
    refine hm.block_ensures (by omega) fun place hplace => ?_
    simp only [bind_eq, ensures_bind, ensures_load, hplace]
    refine ⟨hA _ (inMap_start_add (by omega)), ih (by omega) ?_⟩
    have hblock : (decode (d (m.start + i)) : BitmapBlock).usedCount =
        (List.range sectorBits).countP fun n => m.marks d (sectorBits * i + n) := by
      rw [BitmapBlock.usedCount_eq]
      refine List.countP_congr fun n hn => ?_
      have hn' : n < sectorBits := List.mem_range.1 hn
      have hdiv : (sectorBits * i + n) / sectorBits = i := by
        simp only [sectorBits] at *
        omega
      have hmod : (sectorBits * i + n) % sectorBits = n % sectorBits := by
        simp only [sectorBits]
        omega
      simp only [marks, hdiv, hmod]
    have hrest : (List.range (sectorBits * count)).countP
          (fun n => m.marks d (sectorBits * (i + 1) + n)) =
        (List.range (sectorBits * count)).countP
          fun n => m.marks d (sectorBits * i + (sectorBits + n)) := by
      refine List.countP_congr fun n _ => ?_
      rw [show sectorBits * (i + 1) + n = sectorBits * i + (sectorBits + n) by
        simp only [sectorBits]
        omega]
    rw [hblock, hrest, Nat.add_assoc]
    rwa [show sectorBits * (count + 1) = sectorBits + sectorBits * count by
      simp only [sectorBits]
      omega, countP_range_add] at hQ

theorem Records.subset_range (h : m.Records d used) : used ⊆ Finset.range m.capacity :=
  fun _ hn => Finset.mem_range.2 (h.lt_capacity hn)

theorem Records.card_le (h : m.Records d used) : used.card ≤ m.capacity := by
  rw [← Finset.card_range m.capacity]
  exact Finset.card_le_card h.subset_range

/-- The set bits are those of the numbers that are used. -/
theorem Records.countP_marks (h : m.Records d used) (hm : m.Lies size) :
    (List.range (sectorBits * m.blocks)).countP (m.marks d) = used.card := by
  have hset : ((List.range (sectorBits * m.blocks)).filter (m.marks d)).toFinset = used := by
    ext n
    rw [List.mem_toFinset, List.mem_filter, List.mem_range]
    constructor
    · rintro ⟨hn, hmark⟩
      exact (h.marks_iff hn).1 hmark
    · intro hn
      have hlt := Nat.lt_of_lt_of_le (h.lt_capacity hn) hm.capacity_le_bits
      exact ⟨hlt, (h.marks_iff hlt).2 hn⟩
  rw [List.countP_eq_length_filter, ← List.toFinset_card_of_nodup (List.nodup_range.filter _), hset]

/-- The map tells how many numbers below its capacity are missing. -/
theorem freeCount_records (hm : m.Lies size) (h : m.Records d used) (hA : ∀ n, m.InMap n → A n)
    (hQ : Q (m.capacity - used.card) d) : m.freeCount.Ensures A G Q d := by
  rw [freeCount, bind_eq, ensures_bind]
  refine countUsed_ensures hm hA (by omega) ?_
  simp only [Nat.zero_add, Nat.mul_zero, h.countP_marks hm, ensures_difference]
  exact ⟨h.card_le, hQ⟩

theorem Tracks.card_usedNumbers (h : m.Tracks d U) :
    (m.usedNumbers U).card = m.reserved + U.card := by
  have hdisjoint : Disjoint (Finset.range m.reserved) (U.image SectorId.index) := by
    rw [Finset.disjoint_left]
    intro n hn hu
    obtain ⟨id, hid, rfl⟩ := Finset.mem_image.1 hu
    exact absurd (Finset.mem_range.1 hn) (Nat.not_lt.2 (h.reserved_le hid))
  rw [usedNumbers, Finset.card_union_of_disjoint hdisjoint, Finset.card_range,
    Finset.card_image_of_injective _ fun _ _ => SectorId.index_injective]

theorem Tracks.usedNumbers_subset (h : m.Tracks d U) (hm : m.Fits size) :
    m.usedNumbers U ⊆ Finset.range m.capacity := (h.records hm).subset_range

theorem Tracks.card_le (h : m.Tracks d U) (hm : m.Fits size) :
    m.reserved + U.card ≤ m.capacity := by
  rw [← h.card_usedNumbers]
  exact (h.records hm).card_le

/-- How many sectors the map tells to be free. -/
theorem freeCount_ensures (hm : m.Fits size) (h : m.Tracks d U) (hA : ∀ n, n < size → A n)
    (hQ : Q (m.capacity - (m.reserved + U.card)) d) : m.freeCount.Ensures A G Q d := by
  refine freeCount_records hm.lies (h.records hm) (fun n hn => hA n (hm.lt_of_inMap hn)) ?_
  rwa [h.card_usedNumbers]

end FreeMap

end InodeVolume

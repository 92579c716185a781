import InodeVolume.Sector.Basic

/-!
Where an inode keeps its data blocks. The first 100 pointers stand in the record, the next
24 * 128 in index blocks that the record points to, the last 128 * 128 in index blocks that one
further index block points to. `BlockAddress.ofIndex?` and `BlockAddress.toIndex` are inverse to
each other on the addressable blocks.
-/
namespace InodeVolume

/-- The number of blocks that an inode can address. -/
abbrev maxBlocks : Nat := 19556

/-- The number of bytes in the largest file. -/
abbrev maxFileSize : Nat := 10012672

theorem maxFileSize_eq : maxFileSize = maxBlocks * sectorSize := rfl

inductive BlockAddress where
  | direct (i : Fin 100)
  | indirect (outer : Fin 24) (inner : Fin 128)
  | doubleIndirect (outer inner : Fin 128)
  deriving DecidableEq

namespace BlockAddress

def ofIndex? (index : Nat) : Option BlockAddress :=
  if h : index < 100 then some (.direct ⟨index, h⟩)
  else if h : index < 3172 then
    some (.indirect ⟨(index - 100) / 128, by omega⟩ ⟨(index - 100) % 128, by omega⟩)
  else if h : index < 19556 then
    some (.doubleIndirect ⟨(index - 3172) / 128, by omega⟩ ⟨(index - 3172) % 128, by omega⟩)
  else none

def toIndex : BlockAddress → Nat
  | direct i => i
  | indirect outer inner => 100 + 128 * outer + inner
  | doubleIndirect outer inner => 3172 + 128 * outer + inner

theorem toIndex_lt (a : BlockAddress) : a.toIndex < maxBlocks := by
  cases a <;> simp only [toIndex, maxBlocks] <;> omega

theorem ofIndex?_toIndex (a : BlockAddress) : ofIndex? a.toIndex = some a := by
  cases a with
  | direct i => simp [ofIndex?, toIndex]
  | indirect outer inner =>
    have hdirect : ¬ 100 + 128 * outer.val + inner.val < 100 := by omega
    have hindirect : 100 + 128 * outer.val + inner.val < 3172 := by omega
    have ho : (100 + 128 * outer.val + inner.val - 100) / 128 = outer.val := by omega
    have hi : (100 + 128 * outer.val + inner.val - 100) % 128 = inner.val := by omega
    rw [ofIndex?, toIndex, dif_neg hdirect, dif_pos hindirect]
    exact congrArg some (congr (congrArg indirect (Fin.ext ho)) (Fin.ext hi))
  | doubleIndirect outer inner =>
    have hdirect : ¬ 3172 + 128 * outer.val + inner.val < 100 := by omega
    have hindirect : ¬ 3172 + 128 * outer.val + inner.val < 3172 := by omega
    have hmax : 3172 + 128 * outer.val + inner.val < 19556 := by omega
    have ho : (3172 + 128 * outer.val + inner.val - 3172) / 128 = outer.val := by omega
    have hi : (3172 + 128 * outer.val + inner.val - 3172) % 128 = inner.val := by omega
    rw [ofIndex?, toIndex, dif_neg hdirect, dif_neg hindirect, dif_pos hmax]
    exact congrArg some (congr (congrArg doubleIndirect (Fin.ext ho)) (Fin.ext hi))

theorem toIndex_of_ofIndex? {index : Nat} {a : BlockAddress} (h : ofIndex? index = some a) :
    a.toIndex = index := by
  unfold ofIndex? at h
  split at h
  · cases h
    rfl
  · split at h
    · cases h
      simp only [toIndex]
      omega
    · split at h
      · cases h
        simp only [toIndex]
        omega
      · cases h

theorem ofIndex?_eq_none_iff {index : Nat} : ofIndex? index = none ↔ maxBlocks ≤ index := by
  unfold ofIndex?
  split
  · simp only [reduceCtorEq, false_iff, maxBlocks]
    omega
  · split
    · simp only [reduceCtorEq, false_iff, maxBlocks]
      omega
    · split <;> simp only [reduceCtorEq, false_iff, true_iff, maxBlocks] <;> omega

theorem exists_toIndex_eq {index : Nat} (h : index < maxBlocks) :
    ∃ a : BlockAddress, a.toIndex = index := by
  obtain ⟨a, ha⟩ := Option.ne_none_iff_exists'.1 fun hnone =>
    Nat.not_lt.2 (ofIndex?_eq_none_iff.1 hnone) h
  exact ⟨a, toIndex_of_ofIndex? ha⟩

end BlockAddress

/-- The number of data blocks of a file; an empty file has one too. -/
def dataBlocks (length : Nat) : Nat := max 1 ((length + 511) / 512)

/-- The number of data and index blocks that `blocks` data blocks need. -/
def totalSectors (blocks : Nat) : Nat :=
  let indirect := if 100 < blocks then (min blocks 3172 - 100 + 127) / 128 else 0
  let double := if 3172 < blocks then 1 + (blocks - 3172 + 127) / 128 else 0
  blocks + indirect + double

theorem dataBlocks_pos (length : Nat) : 0 < dataBlocks length := by
  unfold dataBlocks
  omega

theorem totalSectors_mono {m n : Nat} (h : m ≤ n) : totalSectors m ≤ totalSectors n := by
  simp only [totalSectors]
  split <;> split <;> split <;> split <;> omega

theorem totalSectors_succ_direct {n : Nat} (h : n < 100) :
    totalSectors (n + 1) = totalSectors n + 1 := by
  simp only [totalSectors]
  split <;> split <;> split <;> split <;> omega

theorem totalSectors_succ_indirect {n : Nat} (h : 100 ≤ n) (hn : n < 3172) :
    totalSectors (n + 1) = totalSectors n + if (n - 100) % 128 = 0 then 2 else 1 := by
  simp only [totalSectors]
  split <;> split <;> split <;> split <;> split <;> omega

theorem totalSectors_succ_doubleIndirect {n : Nat} (h : 3172 ≤ n) :
    totalSectors (n + 1) = totalSectors n +
      if n = 3172 then 3 else if (n - 3172) % 128 = 0 then 2 else 1 := by
  simp only [totalSectors]
  split <;> split <;> split <;> split <;> split <;> (try split) <;> omega

end InodeVolume

import InodeVolume.Proofs.FileStore.Transfer
import Mathlib.Algebra.Order.BigOperators.Group.Finset

/-!
How many sectors a file store occupies. The number follows from the lengths of its files and from
what callers hold, wherever the sectors lie.
-/
namespace InodeVolume

namespace FileStore

variable {st : FileStore} {s : SectorId} {f : File} {b : Bytes} {length : Nat} {kind : InodeKind}

/-- How many sectors are in use behind the free map. -/
def occupied (st : FileStore) : Nat :=
  st.held.card + ∑ s ∈ st.live, (1 + totalSectors (dataBlocks (st.file s).bytes.size))

/-- A single file occupies what it needs. -/
theorem occupied_single (hlive : st.live = {s}) (hheld : st.held = ∅) :
    st.occupied = 1 + totalSectors (dataBlocks (st.file s).bytes.size) := by
  rw [occupied, hlive, hheld, Finset.sum_singleton, Finset.card_empty, Nat.zero_add]

/-- A new volume has the record and the data sector of its root directory. -/
theorem occupied_initial (root : SectorId) : (initial root).occupied = 2 := by
  rw [occupied_single (s := root) rfl rfl]
  exact congrArg (fun n => 1 + totalSectors (dataBlocks n)) (File.size_blank .directory 0)

theorem occupied_addFile (hs : s ∉ st.live) : (st.addFile s f).occupied =
    st.occupied + (1 + totalSectors (dataBlocks f.bytes.size)) := by
  have hrest : ∑ t ∈ st.live,
      (1 + totalSectors (dataBlocks ((st.setFile s f).file t).bytes.size)) =
      ∑ t ∈ st.live, (1 + totalSectors (dataBlocks (st.file t).bytes.size)) := by
    refine Finset.sum_congr rfl fun t ht => ?_
    rw [st.file_setFile_of_ne (fun he : t = s => hs (he ▸ ht)) f]
  change st.held.card + ∑ t ∈ insert s st.live,
    (1 + totalSectors (dataBlocks ((st.setFile s f).file t).bytes.size)) = _
  rw [Finset.sum_insert hs, hrest, st.file_setFile_self s f, occupied]
  omega

theorem bytes_setBytes : ((st.setBytes s b).file s).bytes = b :=
  congrArg File.bytes (st.file_setFile_self s _)

theorem occupied_setBytes (hs : s ∈ st.live) :
    (st.setBytes s b).occupied + totalSectors (dataBlocks (st.file s).bytes.size) =
      st.occupied + totalSectors (dataBlocks b.size) := by
  have hrest : ∑ t ∈ st.live.erase s,
      (1 + totalSectors (dataBlocks ((st.setBytes s b).file t).bytes.size)) =
      ∑ t ∈ st.live.erase s, (1 + totalSectors (dataBlocks (st.file t).bytes.size)) := by
    refine Finset.sum_congr rfl fun t ht => ?_
    rw [setBytes, st.file_setFile_of_ne (Finset.ne_of_mem_erase ht)]
  have hsum := Finset.add_sum_erase st.live
    (fun t => 1 + totalSectors (dataBlocks (st.file t).bytes.size)) hs
  have hsum' := Finset.add_sum_erase st.live
    (fun t => 1 + totalSectors (dataBlocks ((st.setBytes s b).file t).bytes.size)) hs
  simp only [bytes_setBytes, hrest] at hsum hsum'
  change st.held.card + ∑ t ∈ st.live,
    (1 + totalSectors (dataBlocks ((st.setBytes s b).file t).bytes.size)) + _ = _
  rw [occupied]
  omega

theorem occupied_after_createAt (length : Nat) (kind : InodeKind) (hs : s ∈ st.held)
    (hnew : s ∉ st.live) :
    (st.after (.createAt s length kind) (.ok ())).occupied =
      st.occupied + totalSectors (dataBlocks length) := by
  have hadd := occupied_addFile (f := .blank kind length) hnew
  have hcard := Finset.card_erase_add_one hs
  rw [File.size_blank, occupied, occupied] at hadd
  change (st.held.erase s).card + ∑ t ∈ (st.addFile s (.blank kind length)).live,
    (1 + totalSectors (dataBlocks ((st.addFile s (.blank kind length)).file t).bytes.size)) = _
  rw [occupied]
  change st.held.card + _ = _ at hadd
  omega

theorem occupied_after_allocate (hs : s ∉ st.held) :
    (st.after .allocate (some s)).occupied = st.occupied + 1 := by
  change (insert s st.held).card +
    ∑ t ∈ st.live, (1 + totalSectors (dataBlocks (st.file t).bytes.size)) = _
  rw [Finset.card_insert_of_notMem hs, occupied, Nat.add_right_comm]

end FileStore

/-- The sectors in use are those that the store occupies. -/
theorem Laid.card_used_eq_occupied {d : Image} {st : FileStore} (h : Laid d st) :
    (st.used d).card = st.occupied := by
  have hdisjoint : Disjoint st.held (st.live.biUnion (footprint d)) :=
    (Finset.disjoint_biUnion_right _ _ _).2 fun _ hs => (h.held hs).symm
  rw [FileStore.used, Finset.card_union_of_disjoint hdisjoint,
    Finset.card_biUnion fun _ hs _ ht hne => h.disjoint hs ht hne]
  exact congrArg _ (Finset.sum_congr rfl fun _ hs => (h.represents hs).card_footprint)

end InodeVolume

import InodeVolume.Volume
import InodeVolume.Proofs.Allocation.Sufficiency
import InodeVolume.Proofs.FileStore.Allocation

/-!
Formatting. Whatever a device held before, it then holds a volume whose only inode is an empty root
directory; there is no other reason to fail than too few sectors. Mounting finds that volume.
-/
namespace InodeVolume

/-- A map that is reset to the sectors before its end has lent nothing. -/
theorem FreeMap.reset_ensures {m : FreeMap} {size : Nat} {d : Image} (hm : m.Fits size) :
    (m.reset m.reserved).Ensures (· < size) (fun _ _ => True) (fun _ d' => m.Tracks d' ∅) d := by
  refine (reset_records hm.lies hm.reserved_le).mono (fun _ hn => hm.lt_of_inMap hn)
    (fun _ _ => id) fun _ d' hrecords => .of_records ?_ (by simp)
  rwa [usedNumbers, Finset.image_empty, Finset.union_empty]

namespace Volume

open Program

/-- The free map of a volume of `total` sectors. -/
def mapOf (total : UInt32) : FreeMap := freeMapOf (FreeMap.blocksFor total.toNat) total.toNat

/-- What is in sector 0 of such a volume. -/
def superSector (total : UInt32) (root : SectorId) : Sector :=
  encode (SuperBlock.new total (UInt32.ofNat (FreeMap.blocksFor total.toNat)) root)

variable {total : UInt32} {size : Nat} {d : Image}

theorem reserved_mapOf (total : UInt32) :
    (mapOf total).reserved = 1 + FreeMap.blocksFor total.toNat := rfl

theorem capacity_mapOf (total : UInt32) : (mapOf total).capacity = total.toNat := rfl

theorem blocksFor_lt (total : UInt32) : FreeMap.blocksFor total.toNat < 0x100000000 := by
  have htotal : total.toNat < 0x100000000 := total.toNat_lt
  simp only [FreeMap.blocksFor, sectorBits]
  omega

theorem fits_mapOf (hsize : total.toNat ≤ size)
    (hspace : FreeMap.blocksFor total.toNat + 3 ≤ total.toNat) : (mapOf total).Fits size where
  start_pos := Nat.one_pos
  blocks_eq := rfl
  reserved_le := by
    rw [reserved_mapOf, capacity_mapOf]
    omega
  capacity_le := hsize
  capacity_lt := total.toNat_lt

/-- A blank inode alone is the store with an empty root directory. -/
theorem laid_initial {root : SectorId} (h : Represents d root (.blank .directory 0)) :
    Laid d (.initial root) ∧ (FileStore.initial root).used d = footprint d root := by
  refine ⟨⟨?_, ?_, ?_⟩, ?_⟩
  · intro s hs
    obtain rfl := Finset.mem_singleton.1 hs
    exact h
  · intro s t hs ht hne
    obtain rfl := Finset.mem_singleton.1 hs
    exact absurd (Finset.mem_singleton.1 ht).symm hne
  · intro s hs
    exact Finset.disjoint_empty_right _
  · rw [FileStore.used, FileStore.initial, Finset.singleton_biUnion, Finset.empty_union]

theorem format_ensures (hsize : total.toNat ≤ size) :
    (format total).Ensures (· < size) (fun _ _ => True)
      (fun x d' => match x with
        | .error e => e = .noSpace ∧ total.toNat < FreeMap.blocksFor total.toNat + 3
        | .ok v => FreeMap.blocksFor total.toNat + 3 ≤ total.toNat ∧ v.freeMap = mapOf total ∧
          Laid d' (.initial v.root) ∧
          (mapOf total).Tracks d' ((FileStore.initial v.root).used d') ∧
          d' 0 = superSector total v.root) d := by
  rw [format]
  by_cases hspace : total.toNat < 1 + FreeMap.blocksFor total.toNat + 2
  · rw [if_pos hspace]
    exact ⟨rfl, by omega⟩
  · have hfits : (mapOf total).Fits size := fits_mapOf hsize (by omega)
    have hreserved := reserved_mapOf total
    have hcapacity := capacity_mapOf total
    rw [if_neg hspace, ← mapOf, ← hreserved]
    simp only [bind_eq, ensures_bind]
    refine (FreeMap.reset_ensures hfits).imp fun _ d₁ htracks₁ => ?_
    refine (FreeMap.allocate_free_ensures hfits htracks₁ (by simp; omega)).imp ?_
    rintro _ d₂ ⟨root, rfl, -, htracks₂⟩
    simp only [ensures_bind]
    have hroot : root ∈ insert root (∅ : Finset SectorId) := Finset.mem_insert_self root ∅
    refine (FreeMap.createAt_ensures _ hfits htracks₂ hroot (by decide) ?_).imp ?_
    · have hone : totalSectors (dataBlocks 0) = 1 := by decide
      rw [hone, Finset.card_insert_of_notMem (by simp), Finset.card_empty]
      omega
    · rintro _ d₃ ⟨rfl, P, -, hblank, htracks₃⟩
      obtain ⟨hrep, hfoot⟩ := hblank.represents
      have hset : footprint d₃ root = insert root ∅ ∪ P := by
        rw [hfoot, Finset.insert_union, Finset.empty_union]
      -- The super block lies outside the map and outside all that the root directory has.
      have hsuper (s : Sector) : Agree (footprint d₃ root) d₃ (Function.update d₃ 0 s) := by
        intro id _
        exact Function.update_of_ne (Nat.ne_of_gt id.index_pos) _ _
      have hmap (s : Sector) :
          (mapOf total).Tracks (Function.update d₃ 0 s) (footprint d₃ root) := by
        rw [hset]
        refine htracks₃.congr fun i _ => Function.update_of_ne ?_ _ _
        exact Nat.ne_of_gt (Nat.add_pos_left Nat.one_pos i)
      have htotal : total.toNat < 0x100000000 := total.toNat_lt
      simp only [ensures_bind, ensures_word, ensures_writeSector, ensures_note, pure_eq,
        ensures_done]
      refine ⟨by omega, by omega, trivial, by omega, trivial, ?_⟩
      obtain ⟨hlaid, hused⟩ := laid_initial (hrep.congr (hsuper _))
      refine ⟨hlaid, ?_, Function.update_self _ _ _⟩
      rw [hused, hrep.footprint_congr (hsuper _)]
      exact hmap _

variable {root : SectorId} {A : Nat → Prop} {G : Image → Image → Prop}

/-- Mounting reads back what formatting has written. -/
theorem mount_ensures (hd : d 0 = superSector total root) (hA : A 0) :
    mount.Ensures A G (fun x _ => x = .ok ⟨mapOf total, root⟩) d := by
  have hsuper : (decode (d 0) : SuperBlock) =
      SuperBlock.new total (UInt32.ofNat (FreeMap.blocksFor total.toNat)) root := by
    rw [hd, superSector, SuperBlock.decode_encode]
  have hvalid : (decode (d 0) : SuperBlock).isValid = true := by
    rw [hsuper]
    exact beq_self_eq_true SuperBlock.magicWord
  have hroot : SectorId.ofWord? (decode (d 0) : SuperBlock).root = some root := by
    rw [hsuper]
    exact SectorId.ofWord?_toWord (some root)
  have hmap : freeMapOf (decode (d 0) : SuperBlock).bitmapSectors.toNat
      (decode (d 0) : SuperBlock).total.toNat = mapOf total := by
    rw [hsuper, mapOf]
    exact congrArg (freeMapOf · _) (UInt32.toNat_ofNat_of_lt' (blocksFor_lt total))
  rw [mount, bind_eq, ensures_bind, ensures_readSector]
  refine ⟨hA, ?_⟩
  generalize (decode (d 0) : SuperBlock) = superBlock at hvalid hroot hmap
  simp only [hvalid, hroot, hmap, Bool.not_true, Bool.false_eq_true, if_false, bind_eq,
    ensures_bind, ensures_note, pure_eq, ensures_done]

end Volume

end InodeVolume

import InodeVolume.Proofs.Allocation.FirstFit
import InodeVolume.Proofs.Volume.Format
import Mathlib.Data.List.GetD

/-!
Formatting, byte by byte. What a device holds afterwards is decided by the number of sectors alone:
the super block, a map of the first sectors, the record of the root directory behind the map and
its one block behind that. A device that is too small for those is not touched.
-/
namespace InodeVolume

open Program LawfulBlockDevice

section Creation

variable {m : FreeMap} {size k : Nat} {d : Image}

/-- A map of the first numbers hands out the next one. -/
theorem FreeMap.allocate_range (hm : m.Lies size) (h : m.Records d (Finset.range k)) (hpos : 0 < k)
    (hk : k < m.capacity) :
    m.allocate.Ensures m.InMap (fun _ _ => True)
      (fun x d' => ∃ id, x = some id ∧ id.index = k ∧ m.Records d' (Finset.range (k + 1)) ∧
        ∀ n, ¬ m.InMap n → d' n = d n) d := by
  refine (allocate_records hm h (Finset.mem_range.2 hpos)).frame.mono (fun _ => id)
    (fun _ _ _ => trivial) ?_
  rintro (_ | id) d' ⟨hpost, hsame⟩
  · exact absurd (Finset.mem_range.1 (hpost.2 k hk)) (Nat.lt_irrefl k)
  · obtain ⟨-, hnew, hbelow, hrecords⟩ := hpost
    have hindex : id.index = k := by
      refine Nat.le_antisymm (Nat.not_lt.1 fun hlt => ?_) ?_
      · exact absurd (Finset.mem_range.1 (hbelow k hlt)) (Nat.lt_irrefl k)
      · exact Nat.not_lt.1 fun hlt => hnew (Finset.mem_range.2 hlt)
    rw [hindex, ← Finset.range_add_one] at hrecords
    exact ⟨id, rfl, hindex, hrecords, hsame⟩

/-- The record of an empty inode with one block. -/
def InodeRecord.single (kind : InodeKind) (data : SectorId) : InodeRecord :=
  { fresh kind with direct := Vector.ofFn fun i => if i.val = 0 then some data else none }

theorem InodeRecord.single_eq (kind : InodeKind) (data : SectorId) : single kind data =
    { fresh kind with length := 0, direct := setSlot (fresh kind).direct 0 (some data) } := by
  have hdirect : (Vector.ofFn fun i : Fin 100 => if i.val = 0 then some data else none) =
      setSlot (fresh kind).direct 0 (some data) := by
    apply Vector.ext
    intro i hi
    simp [setSlot, fresh, Vector.getElem_set, eq_comm]
  rw [single, hdirect]
  rfl

/-- An empty inode is created on a map of the first numbers: the next sector is its only block. -/
theorem Store.createAt_range (hm : m.Lies size) (h : m.Records d (Finset.range k)) (hpos : 0 < k)
    (hk : k < m.capacity) (root : SectorId) (kind : InodeKind) :
    ((Store.createAt root 0 kind).serve m).Ensures
      (fun n => m.InMap n ∨ n = k ∨ n = root.index) (fun _ _ => True)
      (fun x d' => x = (.ok (), m) ∧ ∃ (data : SectorId) (d₁ : Image), data.index = k ∧
        m.Records d₁ (Finset.range (k + 1)) ∧ (∀ n, ¬ m.InMap n → d₁ n = d n) ∧
        d' = Function.update (Function.update d₁ k Sector.zero) root.index
          (encode (InodeRecord.single kind data))) d := by
  have hblocks : dataBlocks 0 = 1 := rfl
  have htotal : totalSectors 1 = 1 := rfl
  have haddress : BlockAddress.ofIndex? 0 = some (.direct 0) := rfl
  simp only [Store.createAt, hblocks, htotal, Store.allocateMany, Store.gather, bind_eq, pure_eq]
  rw [if_neg (by decide)]
  simp only [ensures_serve_bind, ensures_serve_require, ensures_serve_allocate,
    Allocator.allocate, bind_eq, ensures_bind]
  refine ⟨by decide, (FreeMap.allocate_range hm h hpos hk).mono (fun _ hn => Or.inl hn)
    (fun _ _ => id) ?_⟩
  rintro _ d₁ ⟨data, rfl, hdata, hrecords, hsame⟩
  simp only [pure_eq, ensures_done, ensures_serve_done, ensures_serve_bind, liftM_eq,
    ensures_serve_onStore, List.reverse_cons, List.reverse_nil, List.nil_append,
    InodeRecord.grow, InodeRecord.growBlock, InodeRecord.nextSector, InodeRecord.link, haddress,
    getOrBreach, ensures_bind, ensures_clear, ensures_serve_word, ensures_store, ensures_note,
    bind_eq, done_bind, hdata]
  refine ⟨.inr (.inl trivial), trivial, by decide, .inr (.inr trivial), trivial, trivial, data, d₁,
    hdata, hrecords, hsame, ?_⟩
  rw [InodeRecord.single_eq]
  rfl

end Creation

namespace Volume

variable {total : UInt32} {root : SectorId} {d d' : Image}

/-- The words of the super block, of which all but the first four are zero. -/
def superWords (total : UInt32) : List UInt32 :=
  let blocks := FreeMap.blocksFor total.toNat
  [SuperBlock.magicWord, total, UInt32.ofNat blocks, UInt32.ofNat (blocks + 1)]

/-- An image after formatting that was `d` before. -/
structure Fresh (total : UInt32) (d d' : Image) : Prop where
  superWord (i : Nat) : wordAt (d' 0).words i = (superWords total).getD i 0
  map : (mapOf total).Records d' (Finset.range (FreeMap.blocksFor total.toNat + 3))
  root : ∃ data : SectorId, data.index = FreeMap.blocksFor total.toNat + 2 ∧
    d' (FreeMap.blocksFor total.toNat + 1) = encode (InodeRecord.single .directory data)
  block : d' (FreeMap.blocksFor total.toNat + 2) = Sector.zero
  others (n : Nat) : FreeMap.blocksFor total.toNat + 3 ≤ n → d' n = d n

theorem wordAt_superSector (hroot : root.index = FreeMap.blocksFor total.toNat + 1) (i : Nat) :
    wordAt (superSector total root).words i = (superWords total).getD i 0 := by
  have hword : root.word = UInt32.ofNat (FreeMap.blocksFor total.toNat + 1) := by
    rw [← hroot, SectorId.index, UInt32.ofNat_toNat]
  have hwords : (superSector total root).words =
      (SuperBlock.new total (UInt32.ofNat (FreeMap.blocksFor total.toNat)) root).toWords :=
    Sector.words_ofWords _
  have hlength : (superWords total).length = 4 := rfl
  rw [hwords, wordAt]
  split
  · rw [SuperBlock.toWords, Vector.getElem_ofFn]
    split
    · rename_i hi
      have hlist : superWords total = #v[SuperBlock.magicWord, total,
          UInt32.ofNat (FreeMap.blocksFor total.toNat), root.word].toList := by
        rw [hword]
        rfl
      rw [hlist, List.getD_eq_getElem _ _ (by simpa using hi), Vector.getElem_toList]
      rfl
    · rename_i hi
      rw [List.getD_eq_default _ _ (hlength.trans_le (Nat.not_lt.1 hi))]
      exact Vector.getElem_replicate _
  · rw [List.getD_eq_default _ _ (by omega)]

theorem inMap_mapOf {n : Nat} :
    (mapOf total).InMap n ↔ 1 ≤ n ∧ n < FreeMap.blocksFor total.toNat + 1 := by
  rw [FreeMap.InMap, reserved_mapOf, Nat.add_comm 1]
  rfl

theorem lies_mapOf {size : Nat} (hsize : FreeMap.blocksFor total.toNat + 3 ≤ size) :
    (mapOf total).Lies size where
  start_pos := Nat.one_pos
  reserved_le := by
    rw [reserved_mapOf]
    omega
  reserved_le_word := by
    rw [reserved_mapOf, Nat.add_comm]
    exact blocksFor_lt total
  capacity_le_bits := by
    simp only [mapOf, freeMapOf, FreeMap.blocksFor, sectorBits]
    omega
  capacity_lt := total.toNat_lt

/-- The root directory is made behind the map, and the super block before it. -/
theorem Fresh.of_created {data : SectorId}
    (hrecords : (mapOf total).Records d' (Finset.range (FreeMap.blocksFor total.toNat + 3)))
    (hsame : ∀ n, ¬ (mapOf total).InMap n → d' n = d n)
    (hroot : root.index = FreeMap.blocksFor total.toNat + 1)
    (hdata : data.index = FreeMap.blocksFor total.toNat + 2) :
    Fresh total d (Function.update (Function.update
      (Function.update d' (FreeMap.blocksFor total.toNat + 2) Sector.zero) root.index
      (encode (InodeRecord.single .directory data))) 0 (superSector total root)) where
  superWord i := by
    rw [Function.update_self]
    exact wordAt_superSector hroot i
  map := by
    refine hrecords.congr fun n hn => ?_
    have hn := inMap_mapOf.1 hn
    rw [Function.update_of_ne (by omega), Function.update_of_ne (by omega),
      Function.update_of_ne (by omega)]
  root := by
    refine ⟨data, hdata, ?_⟩
    rw [Function.update_of_ne (by omega), ← hroot, Function.update_self]
  block := by
    rw [Function.update_of_ne (by omega), Function.update_of_ne (by omega), Function.update_self]
  others n hn := by
    have hmap : ¬ (mapOf total).InMap n := fun h => by
      have := inMap_mapOf.1 h
      omega
    rw [Function.update_of_ne (by omega), Function.update_of_ne (by omega),
      Function.update_of_ne (by omega), hsame n hmap]

theorem format_fresh (hspace : FreeMap.blocksFor total.toNat + 3 ≤ total.toNat) :
    (format total).Ensures (· < FreeMap.blocksFor total.toNat + 3) (fun _ _ => True)
      (fun x d' => ∃ root, root.index = FreeMap.blocksFor total.toNat + 1 ∧
        x = .ok ⟨mapOf total, root⟩ ∧ d' 0 = superSector total root ∧ Fresh total d d') d := by
  have hm : (mapOf total).Lies (FreeMap.blocksFor total.toNat + 3) := lies_mapOf (Nat.le_refl _)
  have hcapacity := capacity_mapOf total
  rw [format, if_neg (by omega), ← mapOf, Nat.add_comm 1]
  simp only [bind_eq, ensures_bind]
  refine (FreeMap.reset_records hm (by omega)).frame.mono (fun _ => hm.lt_of_inMap)
    (fun _ _ _ => trivial) ?_
  rintro _ d₁ ⟨hrecords₁, hsame₁⟩
  refine (FreeMap.allocate_range hm hrecords₁ (by omega) (by omega)).mono
    (fun _ => hm.lt_of_inMap) (fun _ _ => id) ?_
  rintro _ d₂ ⟨root, rfl, hroot, hrecords₂, hsame₂⟩
  simp only [ensures_bind]
  refine (Store.createAt_range hm hrecords₂ (by omega) (by omega) root .directory).mono ?_
    (fun _ _ => id) ?_
  · rintro n (hn | rfl | rfl)
    · exact hm.lt_of_inMap hn
    · omega
    · omega
  rintro _ d₄ ⟨rfl, data, d₃, hdata, hrecords₃, hsame₃, rfl⟩
  simp only [ensures_bind, ensures_word, ensures_writeSector, ensures_note, pure_eq, ensures_done]
  refine ⟨blocksFor_lt total, by omega, trivial, root, hroot, rfl, Function.update_self _ _ _, ?_⟩
  refine .of_created hrecords₃ (fun n hn => ?_) hroot hdata
  rw [hsame₃ n hn, hsame₂ n hn, hsame₁ n hn]

variable {δ : Type} [BlockDevice δ] [LawfulBlockDevice δ]

/-- Formatting to the end. If the sectors do not suffice for a map and a root directory, nothing is
read or written. Otherwise the device needs to have no more sectors than those take: its image is
then the fresh one, all sectors behind the root directory's block are free, and mounting finds the
volume that formatting has answered. -/
theorem format_exact (total : UInt32) (w : World δ) :
    (total.toNat < FreeMap.blocksFor total.toNat + 3 →
      (format total).run w = (.ok (.error .noSpace), w)) ∧
    (FreeMap.blocksFor total.toNat + 3 ≤ total.toNat →
      FreeMap.blocksFor total.toNat + 3 ≤ size w.device →
      ∃ v w₁ w₂, (format total).run w = (.ok (.ok v), w₁) ∧
        size w₁.device = size w.device ∧ Fresh total (image w.device) (image w₁.device) ∧
        v.root.index = FreeMap.blocksFor total.toNat + 1 ∧ v.freeMap = mapOf total ∧
        mount.run w₁ = (.ok (.ok v), w₂) ∧ w₂.device = w₁.device ∧
        ∀ w', w'.device = w₁.device → (v.freeMap.freeCount.run w').1 =
          .ok (total.toNat - FreeMap.blocksFor total.toNat - 3)) := by
  refine ⟨fun hspace => ?_, fun hspace hsize => ?_⟩
  · rw [format, if_pos (by omega)]
    rfl
  · obtain ⟨_, w₁, -, hrun, ⟨root, hroot, rfl, hsuper, hfresh⟩, hsize₁, -⟩ :=
      (format_fresh hspace).run (w := w) fun n hn => Nat.lt_of_lt_of_le hn hsize
    have hm : (mapOf total).Lies (size w₁.device) := hsize₁ ▸ lies_mapOf hsize
    obtain ⟨_, w₂, hmount, rfl, hdevice, -⟩ :=
      (mount_ensures (A := (· = 0)) (G := fun _ _ => False) hsuper rfl).run_silent (w := w₁)
        fun n hn => by omega
    refine ⟨_, w₁, w₂, hrun, hsize₁, hfresh, hroot, rfl, hmount, hdevice, fun w' hw' => ?_⟩
    rw [← hw'] at hm hfresh
    obtain ⟨_, _, hcount, rfl, -⟩ :=
      (FreeMap.freeCount_records (G := fun _ _ => False) (Q := fun n _ => n = _) hm hfresh.map
        (fun _ => id) rfl).run_silent (w := w') fun _ => hm.lt_of_inMap
    rw [hcount, Finset.card_range, capacity_mapOf, Nat.sub_sub]

/-- The smallest volume, on a device that has one sector more. -/
theorem format_exact_four : (4 : UInt32).toNat = FreeMap.blocksFor 4 + 3 ∧
    ∃ v w₁, (format 4).run ⟨SectorArray.filled 5 0xff, #[]⟩ = (.ok (.ok v), w₁) ∧
      image w₁.device 3 = Sector.zero ∧ image w₁.device 4 = Vector.replicate 512 0xff ∧
      (v.freeMap.freeCount.run w₁).1 = .ok 0 := by
  obtain ⟨v, w₁, -, hrun, -, hfresh, -, -, -, -, hfree⟩ :=
    (format_exact 4 ⟨SectorArray.filled 5 0xff, #[]⟩).2 (by decide) (by decide)
  refine ⟨by decide, v, w₁, hrun, hfresh.block, ?_, hfree w₁ rfl⟩
  rw [hfresh.others 4 (by decide)]
  exact SectorArray.image_filled (by decide)

end Volume

end InodeVolume

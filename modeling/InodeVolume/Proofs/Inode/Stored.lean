import InodeVolume.Proofs.Inode.Growth
import InodeVolume.Proofs.Inode.Mapping
import Mathlib.Data.Finset.Card

/-!
The representation of an inode on a device. `Placed d s r P` says that sector `s` holds the record
`r`, that the record has exactly the pointers that its length asks for and that these lead to the
pairwise different sectors of `P`; `Stored d s r P` says besides that every byte from the end of
the file on is zero.
-/
namespace InodeVolume

/-- The record that a sector holds. -/
def recordAt (d : Image) (s : SectorId) : InodeRecord := decode (d s.index)

theorem recordAt_eq_decode (d : Image) (s : SectorId) : recordAt d s = decode (d s.index) := rfl

-- No proof should look for the words of a record that a sector of unknown content holds.
attribute [irreducible] recordAt

theorem recordAt_congr {d d' : Image} {s : SectorId} (h : d' s.index = d s.index) :
    recordAt d' s = recordAt d s := by
  rw [recordAt_eq_decode, recordAt_eq_decode, h]

theorem recordAt_update_self (d : Image) (s : SectorId) (r : InodeRecord) :
    recordAt (Function.update d s.index (encode r)) s = r := by
  rw [recordAt_eq_decode, Function.update_self, InodeRecord.decode_encode]

section DataBlocks

theorem lt_maxFileSize_iff {p : Nat} : p < maxFileSize ↔ p / 512 < maxBlocks := by
  rw [maxFileSize_eq, sectorSize, Nat.div_lt_iff_lt_mul (by decide)]

theorem dataBlocks_le {n : Nat} (h : n ≤ maxFileSize) : dataBlocks n ≤ maxBlocks := by
  simp only [maxFileSize, dataBlocks, maxBlocks] at *
  omega

theorem dataBlocks_mono {m n : Nat} (h : m ≤ n) : dataBlocks m ≤ dataBlocks n := by
  unfold dataBlocks
  omega

theorem dataBlocks_eq_succ {n : Nat} (hpos : 0 < n) : dataBlocks n = (n - 1) / 512 + 1 := by
  unfold dataBlocks
  omega

/-- The blocks of a file that ends further on in its last block. -/
theorem dataBlocks_eq_of_le {n stop : Nat} (hlt : n < stop) (hstop : stop ≤ 512 * dataBlocks n) :
    dataBlocks stop = dataBlocks n := by
  simp only [dataBlocks] at *
  omega

theorem le_maxFileSize_of_le {n stop : Nat} (hn : n ≤ maxFileSize)
    (hstop : stop ≤ 512 * dataBlocks n) : stop ≤ maxFileSize := by
  have hmax := dataBlocks_le hn
  simp only [maxFileSize, maxBlocks] at *
  omega

/-- The blocks of a file that is to reach to the byte `p` at least. -/
theorem dataBlocks_max_succ (n p : Nat) :
    dataBlocks (max n (p + 1)) = max (dataBlocks n) (p / 512 + 1) := by
  unfold dataBlocks
  omega

theorem div_lt_dataBlocks {p n : Nat} (h : p < n) : p / 512 < dataBlocks n := by
  unfold dataBlocks
  omega

end DataBlocks

namespace InodeRecord

variable {r : InodeRecord} {d d' : Image} {n p : Nat} {P : Finset SectorId}
  {dom : PointerSlot → Prop}

theorem isValid_of_extends {r' : InodeRecord} (h : Extends n r r') : r'.isValid = r.isValid := by
  rw [isValid, h.magic, isValid]

theorem kind_of_extends {r' : InodeRecord} (h : Extends n r r') : r'.kind = r.kind := by
  rw [kind, h.kindWord, kind]

theorem size_of_extends {r' : InodeRecord} (h : Extends n r r') : r'.size = r.size := by
  rw [size, h.length, size]

/-- The record of a file that ends at byte `n`. -/
def withLength (r : InodeRecord) (n : Nat) : InodeRecord := { r with length := UInt32.ofNat n }

theorem size_withLength (h : n ≤ maxFileSize) : (r.withLength n).size = n := by
  simp only [maxFileSize] at h
  rw [withLength, size, UInt32.toNat_ofNat']
  omega

@[simp] theorem withLength_size : r.withLength r.size = r := by
  rw [withLength, size, UInt32.ofNat_toNat]

@[simp] theorem kind_withLength : (r.withLength n).kind = r.kind := rfl

@[simp] theorem pointerAt_withLength : (r.withLength n).pointerAt d = r.pointerAt d := by
  funext s
  cases s with
  | index p => cases p <;> rfl
  | data a => cases a <;> rfl

/-- The slots and the data sectors decide what an inode reads as. -/
theorem byteAt_congr {r' : InodeRecord} (h : r'.blockAt d' (p / 512) = r.blockAt d (p / 512))
    (hd : ∀ id, r.blockAt d (p / 512) = some id → d' id.index = d id.index) :
    r'.byteAt d' p = r.byteAt d p := by
  cases hb : r.blockAt d (p / 512) with
  | none => rw [byteAt_of_none hb, byteAt_of_none (h.trans hb)]
  | some id => simp only [byteAt_of_some hb, byteAt_of_some (h.trans hb), hd id hb]

theorem blockAt_eq_of_pointerAt {r' : InodeRecord} (h : r'.pointerAt d' = r.pointerAt d) :
    r'.blockAt d' = r.blockAt d := by
  funext i
  exact blockAt_congr fun a _ => congrFun h (.data a)

theorem byteAt_eq_of_pointerAt {r' : InodeRecord} (h : r'.pointerAt d = r.pointerAt d) :
    r'.byteAt d = r.byteAt d := by
  funext p
  exact byteAt_congr (by rw [blockAt_eq_of_pointerAt h]) fun _ _ => rfl

@[simp] theorem blockAt_withLength : (r.withLength n).blockAt d = r.blockAt d :=
  blockAt_eq_of_pointerAt pointerAt_withLength

@[simp] theorem byteAt_withLength : (r.withLength n).byteAt d = r.byteAt d :=
  byteAt_eq_of_pointerAt pointerAt_withLength

theorem blockAt_mem (h : Linked (r.pointerAt d) dom P) {id : SectorId}
    (hb : r.blockAt d n = some id) : id ∈ P := by
  obtain ⟨a, -, ha⟩ := blockAt_eq_some_iff.1 hb
  exact h.mem (s := .data a) ha

theorem blockAt_injective (h : Linked (r.pointerAt d) dom P) {m : Nat} {id : SectorId}
    (hn : r.blockAt d n = some id) (hm : r.blockAt d m = some id) : n = m := by
  obtain ⟨a, rfl, ha⟩ := blockAt_eq_some_iff.1 hn
  obtain ⟨b, rfl, hb⟩ := blockAt_eq_some_iff.1 hm
  have hab := h.injective (s := .data a) (t := .data b) ha hb
  exact congrArg BlockAddress.toIndex (PointerSlot.data.inj hab)

theorem pointerAt_of_agree (h : Linked (r.pointerAt d) dom P) (hd : Agree P d d') :
    r.pointerAt d' = r.pointerAt d :=
  pointerAt_congr fun p id hp => hd id (h.mem (s := .index p) hp)

theorem byteAt_of_agree (h : Linked (r.pointerAt d) dom P) (hd : Agree P d d') :
    r.byteAt d' p = r.byteAt d p := by
  refine byteAt_congr ?_ fun id hid => hd id (blockAt_mem h hid)
  rw [blockAt_eq_of_pointerAt (pointerAt_of_agree h hd)]

/-- Blocks that hold zeros read as zeros. -/
theorem byteAt_of_zero (h : ∀ a : BlockAddress, a.toIndex = p / 512 → ∀ id,
    r.dataAt d a = some id → d id.index = Sector.zero) : r.byteAt d p = 0 := by
  cases hb : r.blockAt d (p / 512) with
  | none => exact byteAt_of_none hb
  | some id =>
    obtain ⟨a, ha, hid⟩ := blockAt_eq_some_iff.1 hb
    rw [byteAt_of_some hb, h a ha id hid, Sector.getElem_zero]

namespace Preserves

theorem blockAt_eq (h : Preserves n r d d') {i : Nat} (hi : i < n) :
    r.blockAt d' i = r.blockAt d i :=
  blockAt_congr fun a ha => h.pointer (.data a) (ha.trans_lt hi)

theorem byteAt_eq (h : Preserves n r d d') (hp : p / 512 < n) : r.byteAt d' p = r.byteAt d p := by
  refine byteAt_congr (h.blockAt_eq hp) fun id hid => ?_
  obtain ⟨a, ha, hat⟩ := blockAt_eq_some_iff.1 hid
  exact h.content (ha ▸ hp) hat

end Preserves

theorem Extends.blockAt_eq {r' : InodeRecord} (h : Extends n r r') {i : Nat} (hi : i < n) :
    r'.blockAt d i = r.blockAt d i :=
  blockAt_congr fun a ha => h.pointerAt_eq (s := .data a) (ha.trans_lt hi)

/-- Growth changes no byte of the blocks from before. -/
theorem Growing.byteAt_eq {r' : InodeRecord} (h : Growing n r d dom P r' d') (hp : p / 512 < n) :
    r'.byteAt d' p = r.byteAt d p :=
  (byteAt_congr (h.extension.blockAt_eq hp) fun _ _ => rfl).trans (h.preserves.byteAt_eq hp)

end InodeRecord

/-- An inode whose record and pointers are in place, whatever its data sectors hold. -/
structure Placed (d : Image) (s : SectorId) (r : InodeRecord) (P : Finset SectorId) : Prop where
  valid : r.isValid = true
  size_le : r.size ≤ maxFileSize
  onDisk : recordAt d s = r
  linked : Linked (r.pointerAt d) (fun t => t.first < dataBlocks r.size) P
  card : P.card = totalSectors (dataBlocks r.size)
  apart : s ∉ P

structure Stored (d : Image) (s : SectorId) (r : InodeRecord) (P : Finset SectorId) : Prop
    extends Placed d s r P where
  tail (p : Nat) : r.size ≤ p → r.byteAt d p = 0

variable {d d' : Image} {s : SectorId} {r : InodeRecord} {P : Finset SectorId} {i p : Nat}

namespace Placed

theorem blocks_le (h : Placed d s r P) : dataBlocks r.size ≤ maxBlocks := dataBlocks_le h.size_le

theorem exists_blockAt (h : Placed d s r P) (hi : i < dataBlocks r.size) :
    ∃ id ∈ P, r.blockAt d i = some id := by
  obtain ⟨a, rfl⟩ := BlockAddress.exists_toIndex_eq (hi.trans_le h.blocks_le)
  obtain ⟨id, hid⟩ := h.linked.exists_some (s := .data a) hi
  exact ⟨id, h.linked.mem hid, (r.blockAt_toIndex a).trans hid⟩

theorem blockAt_eq_none (h : Placed d s r P) (hi : dataBlocks r.size ≤ i) :
    r.blockAt d i = none := by
  rw [← Option.not_isSome_iff_eq_none, Option.isSome_iff_exists]
  rintro ⟨id, hid⟩
  obtain ⟨a, rfl, ha⟩ := InodeRecord.blockAt_eq_some_iff.1 hid
  rw [← r.pointerAt_data, h.linked.eq_none (s := .data a) (by simpa using hi)] at ha
  cases ha

theorem lt_dataBlocks (h : Placed d s r P) {id : SectorId} (hi : r.blockAt d i = some id) :
    i < dataBlocks r.size := by
  apply Nat.lt_of_not_le
  intro hle
  rw [h.blockAt_eq_none hle] at hi
  cases hi

theorem index_owned (h : Placed d s r P) (q : IndexSlot) (id : SectorId)
    (hq : r.indexAt d q = some id) : Owned (insert s P) id.index :=
  owned_of_mem (Finset.mem_insert_of_mem (h.linked.mem (s := .index q) hq))

theorem congr (h : Placed d s r P) (hd : Agree (insert s P) d d') : Placed d' s r P where
  valid := h.valid
  size_le := h.size_le
  onDisk := (recordAt_congr (hd s (Finset.mem_insert_self s P))).trans h.onDisk
  linked := by
    rw [InodeRecord.pointerAt_of_agree h.linked (hd.mono (Finset.subset_insert s P))]
    exact h.linked
  card := h.card
  apart := h.apart

end Placed

namespace Stored

theorem byteAt_eq (h : Stored d s r P) (hd : Agree (insert s P) d d') :
    r.byteAt d' p = r.byteAt d p :=
  InodeRecord.byteAt_of_agree h.linked (hd.mono (Finset.subset_insert s P))

theorem congr (h : Stored d s r P) (hd : Agree (insert s P) d d') : Stored d' s r P where
  toPlaced := h.toPlaced.congr hd
  tail p hp := (h.byteAt_eq hd).trans (h.tail p hp)

/-- The record is written back with a new length, for which all blocks are in place. -/
theorem of_sync {n : Nat} (hvalid : r.isValid = true) (hn : n ≤ maxFileSize)
    (hlinked : Linked (r.pointerAt d) (fun t => t.first < dataBlocks n) P)
    (hcard : P.card = totalSectors (dataBlocks n)) (hs : s ∉ P)
    (htail : ∀ p, n ≤ p → r.byteAt d p = 0) :
    Stored (Function.update d s.index (encode (r.withLength n))) s (r.withLength n) P ∧
      ∀ p, (r.withLength n).byteAt (Function.update d s.index (encode (r.withLength n))) p =
        r.byteAt d p := by
  have hsize : (r.withLength n).size = n := InodeRecord.size_withLength hn
  have hP : Agree P d (Function.update d s.index (encode (r.withLength n))) :=
    agree_update (not_owned_of_not_mem hs)
  have hbyte (p : Nat) : (r.withLength n).byteAt
      (Function.update d s.index (encode (r.withLength n))) p = r.byteAt d p := by
    rw [InodeRecord.byteAt_withLength, InodeRecord.byteAt_of_agree hlinked hP]
  refine ⟨?_, hbyte⟩
  exact {
    valid := hvalid
    size_le := hsize.trans_le hn
    onDisk := recordAt_update_self d s _
    linked := by
      rw [hsize, InodeRecord.pointerAt_withLength, InodeRecord.pointerAt_of_agree hlinked hP]
      exact hlinked
    card := by rw [hsize, hcard]
    apart := hs
    tail := fun p hp => (hbyte p).trans (htail p (hsize ▸ hp)) }

end Stored

end InodeVolume

import InodeVolume.Proofs.Allocation.FirstFit
import InodeVolume.Proofs.Inode.Creation

/-!
What an inode grows into over a free map. Each new block takes the lowest free sectors for the slots
that it is the first to need, in a fixed order. So where growth leads to depends on where it set out
and on the number of blocks alone, whatever calls brought the blocks and whatever was written to
them in between.
-/
namespace InodeVolume

/-- Where the growth of an inode sets out: the image and the sectors in use by then, and the kind,
the blocks and the pointers that the inode has. -/
structure Outset where
  image : Image
  sector : SectorId
  used : Finset SectorId
  kindWord : UInt32
  blocks : Nat
  look : PointerSlot → Option SectorId
  sector_mem : sector ∈ used

namespace Outset

/-- An inode that there is. -/
def ofInode (d : Image) (s : SectorId) (used : Finset SectorId) (hs : s ∈ used) : Outset where
  image := d
  sector := s
  used := used
  kindWord := (recordAt d s).kindWord
  blocks := dataBlocks (recordAt d s).size
  look := (recordAt d s).pointerAt d
  sector_mem := hs

/-- An inode that is to be created. -/
def ofCreation (d : Image) (s : SectorId) (used : Finset SectorId) (kind : InodeKind)
    (hs : s ∈ used) : Outset where
  image := d
  sector := s
  used := used
  kindWord := kind.toWord
  blocks := 0
  look _ := none
  sector_mem := hs

end Outset

/-- The inode has come to `blocks` blocks by the sectors `ids`, in the order in which the map hands
them out. The record need not be on the device yet. -/
structure Grown (m : FreeMap) (o : Outset) (ids : List SectorId) (blocks : Nat) (r : InodeRecord)
    (d : Image) : Prop where
  valid : r.isValid = true
  kindWord : r.kindWord = o.kindWord
  linked : Linked (r.pointerAt d) (fun t => t.first < blocks) (r.pointers d)
  blocks_le : o.blocks ≤ blocks
  kept (t : PointerSlot) : t.first < o.blocks → r.pointerAt d t = o.look t
  hands : m.HandsOut o.used ids
  filled : (PointerSlot.newIn o.blocks (blocks - o.blocks)).map (r.pointerAt d) = ids.map some
  owned : r.pointers d ⊆ o.used ∪ ids.toFinset
  apart : o.sector ∉ r.pointers d
  tracks : m.Tracks d (o.used ∪ ids.toFinset)
  frame (n : Nat) : ¬ m.InMap n → n ≠ o.sector.index → ¬ Owned (r.pointers d) n →
    d n = o.image n

variable {m : FreeMap} {o : Outset} {ids ids' : List SectorId} {blocks : Nat}
  {r r' : InodeRecord} {d d' : Image} {x : SectorId}

namespace InodeRecord

/-- The slots of a record decide what its pointers are. -/
theorem eq_of_pointerAt (hvalid : r.isValid = true) (hvalid' : r'.isValid = true)
    (hkind : r'.kindWord = r.kindWord) (hlength : r'.length = r.length)
    (h : r'.pointerAt d' = r.pointerAt d) : r' = r := by
  have hmagic : r'.magic = r.magic :=
    (eq_of_beq hvalid').trans (eq_of_beq hvalid).symm
  have hdirect : r'.direct = r.direct := by
    apply Vector.ext
    intro i hi
    exact congrFun h (.data (.direct ⟨i, hi⟩))
  have hindirect : r'.indirect = r.indirect := by
    apply Vector.ext
    intro i hi
    exact congrFun h (.index (.indirect ⟨i, hi⟩))
  have hdouble : r'.doubleIndirect = r.doubleIndirect := congrFun h (.index .double)
  cases r
  cases r'
  simp_all

theorem pointers_congr (h : r'.pointerAt d' = r.pointerAt d) : r'.pointers d' = r.pointers d := by
  ext x
  rw [mem_pointers, mem_pointers, h]

/-- The slots that an index block holds decide what is in it. -/
theorem indexSector_eq {p : IndexSlot} (hx : r.indexAt d p = some x)
    (h : r'.pointerAt d' = r.pointerAt d) : d' x.index = d x.index := by
  have hx' : r'.indexAt d' p = some x := (congrFun h (.index p)).trans hx
  have hentries : (indexBlock d' x).pointers = (indexBlock d x).pointers := by
    apply Vector.ext
    intro i hi
    have hchild := congrFun h (p.child ⟨i, hi⟩)
    rw [pointerAt_child, pointerAt_child, hx, hx', entry_some, entry_some] at hchild
    exact hchild
  rw [← IndexBlock.encode_decode (d' x.index), ← IndexBlock.encode_decode (d x.index)]
  exact congrArg (fun entries => encode (IndexBlock.mk entries)) hentries

/-- The bytes of a block are what is in its sector. -/
theorem dataSector_eq {a : BlockAddress} (hx : r.dataAt d a = some x)
    (h : r'.pointerAt d' = r.pointerAt d) (hbyte : ∀ p, r'.byteAt d' p = r.byteAt d p) :
    d' x.index = d x.index := by
  have hx' : r'.dataAt d' a = some x := (congrFun h (.data a)).trans hx
  apply Vector.ext
  intro j hj
  have hdiv : (512 * a.toIndex + j) / 512 = a.toIndex := by omega
  have hmod : (512 * a.toIndex + j) % 512 = j := by omega
  have hat : r.blockAt d ((512 * a.toIndex + j) / 512) = some x := by
    rw [hdiv, blockAt_toIndex, hx]
  have hat' : r'.blockAt d' ((512 * a.toIndex + j) / 512) = some x := by
    rw [hdiv, blockAt_toIndex, hx']
  have hp := hbyte (512 * a.toIndex + j)
  rw [byteAt_of_some hat, byteAt_of_some hat'] at hp
  simpa only [hmod] using hp

end InodeRecord

namespace Grown

section Unique

variable (h : Grown m o ids blocks r d) (h' : Grown m o ids' blocks r' d')

include h h'

/-- The same number of blocks takes the same sectors. -/
theorem ids_eq : ids' = ids := by
  refine h'.hands.unique h.hands ?_
  have hlength := congrArg List.length h.filled
  have hlength' := congrArg List.length h'.filled
  simp only [List.length_map] at hlength hlength'
  exact hlength'.symm.trans hlength

/-- The same number of blocks is reached through the same pointers. -/
theorem pointerAt_eq : r'.pointerAt d' = r.pointerAt d := by
  funext t
  by_cases hlt : t.first < blocks
  · by_cases hold : t.first < o.blocks
    · exact (h'.kept t hold).trans (h.kept t hold).symm
    · have hnew : t ∈ PointerSlot.newIn o.blocks (blocks - o.blocks) := by
        rw [PointerSlot.mem_newIn]
        omega
      have hfilled := h'.filled
      rw [h.ids_eq h', ← h.filled] at hfilled
      exact List.map_inj_left.1 hfilled t hnew
  · rw [h'.linked.eq_none hlt, h.linked.eq_none hlt]

theorem record_eq (hlength : r'.length = r.length) : r' = r :=
  InodeRecord.eq_of_pointerAt h.valid h'.valid (h'.kindWord.trans h.kindWord.symm) hlength
    (h.pointerAt_eq h')

/-- The same number of blocks makes the same image, but for what is in the data sectors. -/
theorem image_eq_of_not_data (hrecord : d' o.sector.index = d o.sector.index) {n : Nat}
    (hn : ∀ a x, r.dataAt d a = some x → x.index ≠ n) : d' n = d n := by
  by_cases hmap : m.InMap n
  · have htracks := h'.tracks
    rw [h.ids_eq h'] at htracks
    exact h.tracks.map_eq htracks hmap
  · by_cases hsector : n = o.sector.index
    · rw [hsector, hrecord]
    · by_cases ho : Owned (r.pointers d) n
      · obtain ⟨x, hx, rfl⟩ := ho
        obtain ⟨t, ht⟩ := InodeRecord.mem_pointers.1 hx
        cases t with
        | index p => exact InodeRecord.indexSector_eq ht (h.pointerAt_eq h')
        | data a => exact absurd rfl (hn a x ht)
      · have ho' : ¬ Owned (r'.pointers d') n := by
          rwa [InodeRecord.pointers_congr (h.pointerAt_eq h')]
        rw [h.frame n hmap hsector ho, h'.frame n hmap hsector ho']

/-- The same number of blocks with the same bytes in them makes the same image. -/
theorem image_eq (hrecord : d' o.sector.index = d o.sector.index)
    (hbyte : ∀ p, r'.byteAt d' p = r.byteAt d p) : d' = d := by
  funext n
  by_cases hn : ∃ a x, r.dataAt d a = some x ∧ x.index = n
  · obtain ⟨a, x, hx, rfl⟩ := hn
    exact InodeRecord.dataSector_eq hx (h.pointerAt_eq h') hbyte
  · exact h.image_eq_of_not_data h' hrecord fun a x hx hxn => hn ⟨a, x, hx, hxn⟩

end Unique

/-- An inode has come to the blocks that it has. -/
theorem refl {s : SectorId} {U : Finset SectorId} (hs : s ∈ U)
    (hstored : Stored d s (recordAt d s) ((recordAt d s).pointers d))
    (howned : (recordAt d s).pointers d ⊆ U) (htracks : m.Tracks d U) :
    Grown m (.ofInode d s U hs) [] (dataBlocks (recordAt d s).size) (recordAt d s) d where
  valid := hstored.valid
  kindWord := rfl
  linked := hstored.linked
  blocks_le := Nat.le_refl _
  kept _ _ := rfl
  hands := trivial
  filled := by
    rw [Outset.ofInode, Nat.sub_self]
    rfl
  owned := howned.trans Finset.subset_union_left
  apart := hstored.apart
  tracks := by rwa [List.toFinset_nil, Finset.union_empty]
  frame _ _ _ _ := rfl

/-- A fresh record has no blocks. -/
theorem fresh {s : SectorId} {U : Finset SectorId} (hs : s ∈ U) (kind : InodeKind)
    (htracks : m.Tracks d U) :
    Grown m (.ofCreation d s U kind hs) [] 0 (InodeRecord.fresh kind) d := by
  have hlinked := InodeRecord.linked_fresh kind (d := d)
  have hpointers := hlinked.pointers_eq
  exact {
    valid := rfl
    kindWord := rfl
    linked := by rwa [hpointers]
    blocks_le := Nat.le_refl _
    kept := fun t ht => absurd ht (Nat.not_lt_zero _)
    hands := trivial
    filled := rfl
    owned := by simp [hpointers]
    apart := by simp [hpointers]
    tracks := by rwa [List.toFinset_nil, Finset.union_empty]
    frame := fun _ _ _ _ => rfl }

/-- The pointers, the map and what the inode does not own are as before. -/
theorem congr (h : Grown m o ids blocks r d) (hvalid : r'.isValid = true)
    (hkind : r'.kindWord = r.kindWord) (hpointer : r'.pointerAt d' = r.pointerAt d)
    (hframe : ∀ n, n ≠ o.sector.index → ¬ Owned (r.pointers d) n → d' n = d n) :
    Grown m o ids blocks r' d' := by
  have hpointers := InodeRecord.pointers_congr hpointer
  exact {
    valid := hvalid
    kindWord := hkind.trans h.kindWord
    linked := by
      rw [hpointer, hpointers]
      exact h.linked
    blocks_le := h.blocks_le
    kept := fun t ht => (congrFun hpointer t).trans (h.kept t ht)
    hands := h.hands
    filled := by
      rw [hpointer]
      exact h.filled
    owned := by
      rw [hpointers]
      exact h.owned
    apart := by
      rw [hpointers]
      exact h.apart
    tracks := by
      refine h.tracks.frame fun n hn => hframe n ?_ fun ho => hn (ho.mono h.owned)
      rintro rfl
      exact hn (owned_of_mem (Finset.mem_union_left _ o.sector_mem))
    frame := fun n hmap hn ho => by
      rw [hpointers] at ho
      rw [hframe n hn ho, h.frame n hmap hn ho] }

/-- The record is written with another length. -/
theorem sync (h : Grown m o ids blocks r d) (n : Nat) (s : Sector) :
    Grown m o ids blocks (r.withLength n) (Function.update d o.sector.index s) := by
  refine h.congr h.valid rfl ?_ fun k hk _ => Function.update_of_ne hk _ _
  rw [InodeRecord.pointerAt_withLength]
  exact InodeRecord.pointerAt_update_of_ne fun p => h.linked.ne_some (s := .index p) h.apart

/-- A data sector is written. -/
theorem write {a : BlockAddress} (h : Grown m o ids blocks r d) (hx : r.dataAt d a = some x)
    (s : Sector) : Grown m o ids blocks r (Function.update d x.index s) := by
  have hmem : x ∈ r.pointers d := h.linked.mem (s := .data a) hx
  refine h.congr h.valid rfl (InodeRecord.pointerAt_update_of_ne fun p hp => ?_) fun k _ ho => ?_
  · cases h.linked.injective (s := .index p) (t := .data a) hp hx
  · refine Function.update_of_ne ?_ _ _
    rintro rfl
    exact ho (owned_of_mem hmem)

end Grown

end InodeVolume

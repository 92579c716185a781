import InodeVolume.Proofs.Volume.Runs

/-!
The shape of an inode. Over any lender, at any time of its life, an inode has exactly the pointers
that its length asks for, each to a sector of its own, and whoever has it open holds a true copy of
its record.
-/
namespace InodeVolume

/-- The pointers that a record has, region by region, are those of `n` blocks. -/
structure InodeRecord.Shape (r : InodeRecord) (d : Image) (n : Nat) : Prop where
  direct (i : Fin 100) : (slot r.direct i).isSome ↔ i.val < min n 100
  indirect (j : Fin 24) : (slot r.indirect j).isSome ↔ 100 + 128 * j.val < n
  indirectEntry {j : Fin 24} {x : SectorId} : slot r.indirect j = some x → ∀ k : Fin 128,
    (slot (indexBlock d x).pointers k).isSome ↔ 100 + 128 * j.val + k.val < n
  double : r.doubleIndirect.isSome ↔ 3172 < n
  doubleEntry {x : SectorId} : r.doubleIndirect = some x → ∀ j : Fin 128,
    (slot (indexBlock d x).pointers j).isSome ↔ 3172 + 128 * j.val < n
  doubleIndirect {x y : SectorId} {j : Fin 128} : r.doubleIndirect = some x →
    slot (indexBlock d x).pointers j = some y → ∀ k : Fin 128,
    (slot (indexBlock d y).pointers k).isSome ↔ 3172 + 128 * j.val + k.val < n

theorem Placed.shape {d : Image} {s : SectorId} {r : InodeRecord} {P : Finset SectorId}
    (h : Placed d s r P) : r.Shape d (dataBlocks r.size) where
  direct i := by
    have hi := h.linked.isSome_iff (.data (.direct i))
    rw [InodeRecord.pointerAt_data, InodeRecord.dataAt_direct] at hi
    rw [hi, Nat.lt_min]
    exact (and_iff_left i.isLt).symm
  indirect j := h.linked.isSome_iff (.index (.indirect j))
  indirectEntry {j x} hx k := by
    have hk := h.linked.isSome_iff (.data (.indirect j k))
    rwa [InodeRecord.pointerAt_data, InodeRecord.dataAt_indirect, hx, entry_some] at hk
  double := h.linked.isSome_iff (.index .double)
  doubleEntry {x} hx j := by
    have hj := h.linked.isSome_iff (.index (.doubleEntry j))
    rwa [InodeRecord.pointerAt_index, InodeRecord.indexAt_doubleEntry, hx, entry_some] at hj
  doubleIndirect {x y j} hx hy k := by
    have hk := h.linked.isSome_iff (.data (.doubleIndirect j k))
    rwa [InodeRecord.pointerAt_data, InodeRecord.dataAt_doubleIndirect, hx, entry_some, hy,
      entry_some] at hk

/-- A store without inodes, whose callers hold some sectors. -/
def FileStore.unused (held : Finset SectorId) : FileStore where
  live := ∅
  file _ := .blank .file 0
  held := held
  opened _ := none

theorem FileStore.used_unused (held : Finset SectorId) (d : Image) :
    (unused held).used d = held := by
  rw [used, unused, Finset.biUnion_empty, Finset.union_empty]

/-- What holds of an inode on a machine from its creation to its reclamation. -/
structure WellKept {σ : Type} (d : Image) (reg : Registry σ) (st : FileStore) (s : SectorId) :
    Prop where
  shape : (recordAt d s).Shape d (dataBlocks (recordAt d s).size)
  distinct {t t' : PointerSlot} {x : SectorId} : (recordAt d s).pointerAt d t = some x →
    (recordAt d s).pointerAt d t' = some x → t = t'
  apart (t : PointerSlot) : (recordAt d s).pointerAt d t ≠ some s
  tail {x : SectorId} (i : Fin 512) :
    (recordAt d s).blockAt d (dataBlocks (recordAt d s).size - 1) = some x →
    (recordAt d s).size ≤ 512 * (dataBlocks (recordAt d s).size - 1) + i.val → (d x.index).get i = 0
  cached {h : HandleId} {f : OpenFile} : st.opened h = some f → f.inode = s →
    ∃ entry, reg.handle? h = some entry ∧ entry.inode.sector = s ∧
      entry.inode.record = recordAt d s ∧
      entry.inode.status.blocks = ((recordAt d s).pointers d).card

theorem Stored.tail_zero {d : Image} {s : SectorId} {r : InodeRecord} {P : Finset SectorId}
    (h : Stored d s r P) {b : Nat} {x : SectorId} (i : Fin 512) (hx : r.blockAt d b = some x)
    (hle : r.size ≤ 512 * b + i.val) : (d x.index).get i = 0 := by
  have hdiv : (512 * b + i.val) / 512 = b := by omega
  have hmod : (512 * b + i.val) % 512 = i.val := by omega
  have hbyte := h.tail _ hle
  rw [InodeRecord.byteAt_of_some (by rwa [hdiv])] at hbyte
  simp only [hmod] at hbyte
  exact hbyte

theorem WellKept.of_serving {σ : Type} [Allocator σ] {size : Nat} {l : Lender σ size} {a : σ}
    {registered : List HandleId} {d : Image} {reg : Registry σ} {st : FileStore} {s : SectorId}
    (hc : Serving l a registered d reg st) (hs : s ∈ st.live) : WellKept d reg st s where
  shape := (hc.laid.represents hs).stored.shape
  distinct ht ht' := (hc.laid.represents hs).stored.linked.injective ht ht'
  apart t ht := (hc.laid.represents hs).stored.apart
    ((hc.laid.represents hs).stored.linked.mem ht)
  tail i hx hle := (hc.laid.represents hs).stored.tail_zero i hx hle
  cached {h f} hf he := by
    subst he
    refine ⟨_, hc.handle hf, rfl, rfl, ?_⟩
    rw [(hc.represents hf).stored.card]
    rfl

namespace Machine

open LawfulBlockDevice

variable {δ σ : Type} [BlockDevice δ] [LawfulBlockDevice δ] [Allocator σ] {n : Nat}
  {l : Lender σ n} {a : σ} {d : δ} {held : Finset SectorId}

/-- A machine on which there are no inodes. -/
theorem inUse_unused (hsize : n ≤ size d) (hl : l.lends a (image d) held) :
    InUse l ⟨d, .over a⟩ (.unused held) := by
  refine .over hsize ⟨fun hs => ?_, fun hs => ?_, fun hs => ?_⟩ ?_ fun _ => rfl
  · exact absurd hs (Finset.notMem_empty _)
  · exact absurd hs (Finset.notMem_empty _)
  · exact absurd hs (Finset.notMem_empty _)
  · rwa [FileStore.used_unused]

/-- Over any lender, each inode is well kept from its creation to its reclamation. -/
theorem Reaches.wellKept {m : Machine δ σ} {st : FileStore} {s : SectorId} (hsize : n ≤ size d)
    (hl : l.lends a (image d) held) (h : Reaches ⟨d, .over a⟩ (.unused held) m st)
    (hs : s ∈ st.live) : WellKept (image m.device) m.registry st s := by
  obtain ⟨_, _, hc⟩ := ((inUse_unused hsize hl).reaches h).consistent
  exact .of_serving hc hs

/-- A device with a free map on it, of which a caller holds a sector. -/
theorem exists_lent (total : UInt32) (hspace : FreeMap.blocksFor total.toNat + 3 ≤ total.toNat) :
    ∃ (hm : (Volume.mapOf total).Fits total.toNat) (d : SectorArray) (held : Finset SectorId)
      (s : SectorId), total.toNat ≤ size d ∧
        (FreeMap.lender hm).lends (Volume.mapOf total) (image d) held ∧ s ∈ held ∧
        held.card = 2 := by
  have hsize : size (SectorArray.filled total.toNat 7) = total.toNat := Array.size_replicate
  obtain ⟨v, w, -, hm, hinUse⟩ := exists_format total (Nat.le_of_eq hsize.symm) hspace
  obtain ⟨a, registered, hc⟩ := hinUse.consistent
  obtain ⟨-, htracks⟩ := hc.lends
  have hroot : v.root ∈ (FileStore.initial v.root).live := Finset.mem_singleton_self v.root
  rw [(Volume.laid_initial (hc.laid.represents hroot)).2] at htracks
  have hcard := (hc.laid.represents hroot).card_footprint
  have htwo : 1 + totalSectors (dataBlocks 0) = 2 := by decide
  exact ⟨hm, w.device, footprint (image w.device) v.root, v.root, hinUse.size_le,
    ⟨rfl, htracks⟩, self_mem_footprint _ _, hcard.trans htwo⟩

/-- A file with an index block is created over a free map and opened. -/
theorem wellKept_open_file : ∃ (hm : (Volume.mapOf 300).Fits 300) (d : SectorArray)
    (held : Finset SectorId) (m : Machine SectorArray FreeMap) (st : FileStore) (s : SectorId)
    (h : HandleId), (FreeMap.lender hm).lends (Volume.mapOf 300) (image d) held ∧
      Reaches ⟨d, .over (Volume.mapOf 300)⟩ (.unused held) m st ∧ s ∈ st.live ∧
      st.opened h = some ⟨s, 1, false, 0⟩ ∧ (recordAt (image m.device) s).size = 51201 ∧
      WellKept (image m.device) m.registry st s := by
  obtain ⟨hm, d, held, s, hsize, hl, hs, hcard⟩ := exists_lent 300 (by decide)
  have hempty : InUse (FreeMap.lender hm) ⟨d, .over (Volume.mapOf 300)⟩ (.unused held) :=
    inUse_unused hsize hl
  have hroom : (Volume.mapOf 300).reserved + ((FileStore.unused held).used (image d)).card +
      totalSectors (dataBlocks 51201) ≤ (Volume.mapOf 300).capacity := by
    rw [FileStore.used_unused, hcard]
    decide
  obtain ⟨m₁, hx₁⟩ := hempty.createAt_replies hs (by decide) .file hroom
  have hlegal : (FileStore.unused held).Legal (.createAt s 51201 .file) := hs
  have hreaches₁ := Reaches.refl.step hlegal hx₁
  obtain ⟨st₁, hst₁⟩ : ∃ st₁, (FileStore.unused held).after (.createAt s 51201 .file) (.ok ()) =
    st₁ := ⟨_, rfl⟩
  have hlive : s ∈ st₁.live := hst₁ ▸ Finset.mem_insert_self s ∅
  have hfile : st₁.file s = .blank .file 51201 := hst₁ ▸ FileStore.file_setFile_self _ s _
  rw [hst₁] at hreaches₁
  obtain ⟨x, m₂, hx₂, hadmits, hinUse₂⟩ :=
    (hempty.reaches hreaches₁).attempt_ok (o := .openAt s) hlive rfl
  cases x with
  | error e => exact hadmits.elim
  | ok h =>
    have hreaches₂ := hreaches₁.step (o := .openAt s) hlive hx₂
    have hnone : st₁.opened h = none := hst₁ ▸ rfl
    rw [FileStore.after_openAt hnone] at hreaches₂ hinUse₂
    have hsize₂ := (hinUse₂.represents (s := s) hlive).size
    rw [show (st₁.setOpened h (some ⟨s, 1, false, 0⟩)).file s = .blank .file 51201 from hfile,
      File.size_blank] at hsize₂
    exact ⟨hm, d, held, m₂, _, s, h, hl, hreaches₂, hlive, FileStore.opened_setOpened_self _ _ _,
      hsize₂, hreaches₂.wellKept hsize hl hlive⟩

end Machine

end InodeVolume

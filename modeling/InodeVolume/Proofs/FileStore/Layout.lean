import InodeVolume.Proofs.FileStore.Basic
import InodeVolume.Proofs.Inode.Stored

/-!
How a file store lies on a device. Each live inode has its record, index and data sectors to
itself, and callers hold yet other ones.
-/
namespace InodeVolume

/-- The sectors of an inode: its record and all that it reaches. -/
def footprint (d : Image) (s : SectorId) : Finset SectorId := insert s ((recordAt d s).pointers d)

/-- The inode on a sector is a file. -/
structure Represents (d : Image) (s : SectorId) (f : File) : Prop where
  stored : Stored d s (recordAt d s) ((recordAt d s).pointers d)
  kind : (recordAt d s).kind = f.kind
  size : (recordAt d s).size = f.bytes.size
  byte (p : Nat) : (recordAt d s).byteAt d p = f.bytes.getD p 0

variable {d d' : Image} {s t : SectorId} {f : File} {r : InodeRecord} {P : Finset SectorId}
  {st st' : FileStore}

theorem self_mem_footprint (d : Image) (s : SectorId) : s ∈ footprint d s :=
  Finset.mem_insert_self _ _

theorem Stored.footprint_eq (h : Stored d s r P) : footprint d s = insert s P := by
  rw [footprint, h.onDisk, h.linked.pointers_eq]

theorem Stored.represents (h : Stored d s r P) (hkind : r.kind = f.kind)
    (hsize : r.size = f.bytes.size) (hbyte : ∀ p, r.byteAt d p = f.bytes.getD p 0) :
    Represents d s f where
  stored := by rwa [h.onDisk, h.linked.pointers_eq]
  kind := by rw [h.onDisk, hkind]
  size := by rw [h.onDisk, hsize]
  byte p := by rw [h.onDisk, hbyte]

theorem recordAt_of_agree (h : Agree (footprint d s) d d') : recordAt d' s = recordAt d s :=
  recordAt_congr (h s (self_mem_footprint d s))

namespace Represents

theorem congr (h : Represents d s f) (hd : Agree (footprint d s) d d') : Represents d' s f := by
  have hr := recordAt_of_agree hd
  exact (h.stored.congr hd).represents h.kind h.size fun p =>
    (h.stored.byteAt_eq hd).trans (h.byte p)

theorem footprint_congr (h : Represents d s f) (hd : Agree (footprint d s) d d') :
    footprint d' s = footprint d s :=
  (h.stored.congr hd).footprint_eq

theorem card_footprint (h : Represents d s f) :
    (footprint d s).card = 1 + totalSectors (dataBlocks f.bytes.size) := by
  rw [footprint, Finset.card_insert_of_notMem h.stored.apart, h.stored.card, h.size, Nat.add_comm]

/-- Each data block of a file with direct blocks only is part of what is in it. -/
theorem exists_block (h : Represents d s f) (hsize : dataBlocks f.bytes.size ≤ 100)
    (ht : t ∈ footprint d s) (hne : t ≠ s) :
    ∃ i < dataBlocks f.bytes.size,
      ∀ j (hj : j < 512), (d t.index)[j] = f.bytes.getD (512 * i + j) 0 := by
  have hlinked := h.stored.linked
  obtain ⟨slot, hslot⟩ := (hlinked.mem_iff t).1 (Finset.mem_of_mem_insert_of_ne ht hne)
  have hfirst : slot.first < dataBlocks f.bytes.size := by
    rw [← h.size]
    exact (hlinked.isSome_iff slot).1 (Option.isSome_of_eq_some hslot)
  cases slot with
  | index p =>
    cases p <;> simp only [PointerSlot.first_index, IndexSlot.first] at hfirst <;> omega
  | data a =>
    refine ⟨a.toIndex, hfirst, fun j hj => ?_⟩
    have hdiv : (512 * a.toIndex + j) / 512 = a.toIndex := by omega
    have hmod : (512 * a.toIndex + j) % 512 = j := by omega
    have hblock : (recordAt d s).blockAt d ((512 * a.toIndex + j) / 512) = some t := by
      rw [hdiv, InodeRecord.blockAt_toIndex]
      exact hslot
    rw [← h.byte, InodeRecord.byteAt_of_some hblock]
    simp only [hmod]

end Represents

namespace FileStore

/-- The sectors in use, but for the first ones of the volume. -/
def used (st : FileStore) (d : Image) : Finset SectorId := st.held ∪ st.live.biUnion (footprint d)

/-- The sectors in use that are not those of inode `s`. -/
def others (st : FileStore) (d : Image) (s : SectorId) : Finset SectorId :=
  st.held ∪ (st.live.erase s).biUnion (footprint d)

theorem footprint_subset_others (ht : t ∈ st.live) (hne : t ≠ s) :
    footprint d t ⊆ st.others d s := by
  intro x hx
  refine Finset.mem_union_right _ (Finset.mem_biUnion.2 ⟨t, ?_, hx⟩)
  exact Finset.mem_erase.2 ⟨hne, ht⟩

theorem footprint_subset_used (hs : s ∈ st.live) : footprint d s ⊆ st.used d := fun _ hx =>
  Finset.mem_union_right _ (Finset.mem_biUnion.2 ⟨s, hs, hx⟩)

theorem used_eq_union (hs : s ∈ st.live) : st.used d = footprint d s ∪ st.others d s := by
  rw [used, others, ← Finset.insert_erase hs, Finset.biUnion_insert, Finset.insert_erase hs]
  exact Finset.union_left_comm _ _ _

theorem used_eq_others (hs : s ∉ st.live) : st.used d = st.others d s := by
  rw [used, others, Finset.erase_eq_of_notMem hs]

end FileStore

/-- The file store lies on the device, and no sector belongs to two inodes or to an inode and a
caller. -/
structure Laid (d : Image) (st : FileStore) : Prop where
  represents {s : SectorId} : s ∈ st.live → Represents d s (st.file s)
  disjoint {s t : SectorId} : s ∈ st.live → t ∈ st.live → s ≠ t →
    Disjoint (footprint d s) (footprint d t)
  held {s : SectorId} : s ∈ st.live → Disjoint (footprint d s) st.held

namespace Laid

theorem disjoint_others (h : Laid d st) (hs : s ∈ st.live) :
    Disjoint (footprint d s) (st.others d s) := by
  refine Finset.disjoint_union_right.2 ⟨h.held hs, ?_⟩
  refine (Finset.disjoint_biUnion_right _ _ _).2 fun t ht => ?_
  obtain ⟨hne, ht⟩ := Finset.mem_erase.1 ht
  exact h.disjoint hs ht hne.symm

/-- The sectors of one inode change hands; the others stay as they are. -/
theorem change (h : Laid d st) (s : SectorId) (d' : Image) (st' : FileStore)
    (hkeep : ∀ t ∈ st'.live, t ≠ s → t ∈ st.live ∧ st'.file t = st.file t)
    (hheld : st'.held ⊆ st.held) (hd : Agree (st'.others d s) d d')
    (hs : s ∈ st'.live →
      Represents d' s (st'.file s) ∧ Disjoint (footprint d' s) (st'.others d s)) :
    Laid d' st' ∧ st'.others d' s = st'.others d s := by
  have hagree (t : SectorId) (ht : t ∈ st'.live) (hne : t ≠ s) : Agree (footprint d t) d d' :=
    hd.mono (FileStore.footprint_subset_others ht hne)
  have hfoot (t : SectorId) (ht : t ∈ st'.live) (hne : t ≠ s) : footprint d' t = footprint d t :=
    (h.represents (hkeep t ht hne).1).footprint_congr (hagree t ht hne)
  have hmeet (t : SectorId) (ht : t ∈ st'.live) (hne : t ≠ s) (hst : s ∈ st'.live) :
      Disjoint (footprint d' s) (footprint d' t) := by
    rw [hfoot t ht hne]
    exact Disjoint.mono_right (FileStore.footprint_subset_others ht hne) (hs hst).2
  refine ⟨⟨?_, ?_, ?_⟩, ?_⟩
  · intro t ht
    by_cases hts : t = s
    · subst hts
      exact (hs ht).1
    · rw [(hkeep t ht hts).2]
      exact (h.represents (hkeep t ht hts).1).congr (hagree t ht hts)
  · intro t u ht hu htu
    by_cases hts : t = s
    · subst hts
      exact hmeet u hu (Ne.symm htu) ht
    · by_cases hus : u = s
      · subst hus
        exact (hmeet t ht hts hu).symm
      · rw [hfoot t ht hts, hfoot u hu hus]
        exact h.disjoint (hkeep t ht hts).1 (hkeep u hu hus).1 htu
  · intro t ht
    by_cases hts : t = s
    · subst hts
      exact Disjoint.mono_right Finset.subset_union_left (hs ht).2
    · rw [hfoot t ht hts]
      exact Disjoint.mono_right hheld (h.held (hkeep t ht hts).1)
  · have hunion : (st'.live.erase s).biUnion (footprint d') =
        (st'.live.erase s).biUnion (footprint d) := by
      refine Finset.biUnion_congr rfl fun t ht => ?_
      obtain ⟨hne, ht⟩ := Finset.mem_erase.1 ht
      exact hfoot t ht hne
    rw [FileStore.others, hunion, FileStore.others]

/-- What callers hold changes; all inodes stay as they are. -/
theorem hold {held : Finset SectorId} (h : Laid d st)
    (hd : Agree (st.live.biUnion (footprint d)) d d')
    (hheld : Disjoint (st.live.biUnion (footprint d)) held) :
    Laid d' (st.holding held) ∧
      (st.holding held).used d' = held ∪ st.live.biUnion (footprint d) := by
  have hagree (t : SectorId) (ht : t ∈ st.live) : Agree (footprint d t) d d' :=
    hd.mono fun x hx => Finset.mem_biUnion.2 ⟨t, ht, hx⟩
  have hfoot (t : SectorId) (ht : t ∈ st.live) : footprint d' t = footprint d t :=
    (h.represents ht).footprint_congr (hagree t ht)
  refine ⟨⟨fun ht => (h.represents ht).congr (hagree _ ht), fun ht hu hne => ?_, fun ht => ?_⟩, ?_⟩
  · rw [hfoot _ ht, hfoot _ hu]
    exact h.disjoint ht hu hne
  · rw [hfoot _ ht]
    exact (Finset.disjoint_biUnion_left _ _ _).1 hheld _ ht
  · rw [FileStore.used, FileStore.holding, Finset.biUnion_congr rfl hfoot]

end Laid

end InodeVolume

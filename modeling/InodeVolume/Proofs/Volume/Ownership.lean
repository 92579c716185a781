import InodeVolume.Proofs.Allocation.Counting
import InodeVolume.Proofs.FileStore.Occupancy
import InodeVolume.Proofs.Volume.Runs

/-!
Who owns a sector. At any point of a run on a volume each sector belongs to at most one owner, and
the free map marks exactly the sectors that belong to one; so it tells how many are left.
-/
namespace InodeVolume

inductive Owner where
  | superBlock
  | freeMap
  | record (s : SectorId)
  /-- The data and index sectors of an inode. -/
  | blocks (s : SectorId)
  | callers

/-- The sectors of an owner, by number. -/
def Owner.Has (total : UInt32) (d : Image) (st : FileStore) : Owner → Nat → Prop
  | superBlock, n => n = 0
  | freeMap, n => 1 ≤ n ∧ n ≤ FreeMap.blocksFor total.toNat
  | record s, n => s ∈ st.live ∧ n = s.index
  | blocks s, n => s ∈ st.live ∧ ∃ t id, (recordAt d s).pointerAt d t = some id ∧ n = id.index
  | callers, n => ∃ id ∈ st.held, n = id.index

variable {total : UInt32} {d : Image} {st : FileStore} {s : SectorId} {o o' : Owner} {n : Nat}

theorem has_blocks_iff : (Owner.blocks s).Has total d st n ↔
    s ∈ st.live ∧ ∃ id ∈ (recordAt d s).pointers d, n = id.index := by
  simp only [Owner.Has, InodeRecord.mem_pointers]
  constructor
  · rintro ⟨hs, t, id, ht, hn⟩
    exact ⟨hs, id, ⟨t, ht⟩, hn⟩
  · rintro ⟨hs, id, ⟨t, ht⟩, hn⟩
    exact ⟨hs, t, id, ht, hn⟩

/-- The sectors of inodes and callers are those in use. -/
theorem owned_used_iff : Owned (st.used d) n ↔
    (∃ s, (Owner.record s).Has total d st n) ∨ (∃ s, (Owner.blocks s).Has total d st n) ∨
      Owner.callers.Has total d st n := by
  simp only [has_blocks_iff]
  constructor
  · rintro ⟨id, hid, rfl⟩
    rcases Finset.mem_union.1 hid with hid | hid
    · exact Or.inr (Or.inr ⟨id, hid, rfl⟩)
    · obtain ⟨s, hs, hid⟩ := Finset.mem_biUnion.1 hid
      rcases Finset.mem_insert.1 hid with rfl | hid
      · exact Or.inl ⟨id, hs, rfl⟩
      · exact Or.inr (Or.inl ⟨s, hs, id, hid, rfl⟩)
  · rintro (⟨s, hs, rfl⟩ | ⟨s, hs, id, hid, rfl⟩ | ⟨id, hid, rfl⟩)
    · exact owned_of_mem (FileStore.footprint_subset_used hs (self_mem_footprint d s))
    · exact owned_of_mem (FileStore.footprint_subset_used hs (Finset.mem_insert_of_mem hid))
    · exact owned_of_mem (Finset.mem_union_left _ hid)

namespace Laid

variable {t : SectorId}

theorem live_eq (h : Laid d st) (hs : s ∈ st.live) (ht : t ∈ st.live) {x : SectorId}
    (hxs : x ∈ footprint d s) (hxt : x ∈ footprint d t) : s = t := by
  by_contra hne
  exact (Finset.disjoint_left.1 (h.disjoint hs ht hne)) hxs hxt

/-- Behind the map a sector belongs to an inode, as its record or as one of its blocks, or to
callers. -/
theorem eq_of_has (h : Laid d st) (ho : o.Has total d st n)
    (hn : 1 + FreeMap.blocksFor total.toNat ≤ n) : ∃ x : SectorId, n = x.index ∧
      ((∃ s ∈ st.live, x ∈ footprint d s ∧ o = if x = s then .record s else .blocks s) ∨
        o = .callers ∧ x ∈ st.held) := by
  cases o with
  | superBlock =>
    simp only [Owner.Has] at ho
    omega
  | freeMap =>
    simp only [Owner.Has] at ho
    omega
  | record s =>
    obtain ⟨hs, rfl⟩ := ho
    exact ⟨s, rfl, Or.inl ⟨s, hs, self_mem_footprint d s, (if_pos rfl).symm⟩⟩
  | blocks s =>
    obtain ⟨hs, x, hx, rfl⟩ := has_blocks_iff.1 ho
    have hne : x ≠ s := by
      rintro rfl
      exact (h.represents hs).stored.apart hx
    exact ⟨x, rfl, Or.inl ⟨s, hs, Finset.mem_insert_of_mem hx, (if_neg hne).symm⟩⟩
  | callers =>
    obtain ⟨x, hx, rfl⟩ := ho
    exact ⟨x, rfl, Or.inr ⟨rfl, hx⟩⟩

/-- No sector belongs to two inodes, to two parts of an inode, or to an inode and a caller. -/
theorem owner_eq (h : Laid d st) (ho : o.Has total d st n) (ho' : o'.Has total d st n)
    (hn : 1 + FreeMap.blocksFor total.toNat ≤ n) : o = o' := by
  obtain ⟨x, rfl, hx⟩ := h.eq_of_has ho hn
  obtain ⟨y, hxy, hy⟩ := h.eq_of_has ho' hn
  obtain rfl := SectorId.index_injective hxy
  have hfree {s : SectorId} (hs : s ∈ st.live) (hxs : x ∈ footprint d s) : x ∉ st.held :=
    (Finset.disjoint_left.1 (h.held hs)) hxs
  rcases hx with ⟨s, hs, hxs, rfl⟩ | ⟨rfl, hheld⟩
  · rcases hy with ⟨t, ht, hxt, rfl⟩ | ⟨-, hheld⟩
    · rw [h.live_eq hs ht hxs hxt]
    · exact absurd hheld (hfree hs hxs)
  · rcases hy with ⟨t, ht, hxt, -⟩ | ⟨rfl, -⟩
    · exact absurd hheld (hfree ht hxt)
    · rfl

end Laid

section Accounting

open FreeMap Volume

/-- What inodes and callers have lies behind the map. -/
theorem reserved_le_of_has (h : (mapOf total).Tracks d (st.used d))
    (hn : (∃ s, (Owner.record s).Has total d st n) ∨ (∃ s, (Owner.blocks s).Has total d st n) ∨
      Owner.callers.Has total d st n) : 1 + blocksFor total.toNat ≤ n := by
  obtain ⟨id, hid, rfl⟩ := owned_used_iff.2 hn
  exact h.reserved_le hid

theorem owner_unique (hlaid : Laid d st) (h : (mapOf total).Tracks d (st.used d))
    (ho : o.Has total d st n) (ho' : o'.Has total d st n) : o = o' := by
  by_cases hn : 1 + blocksFor total.toNat ≤ n
  · exact hlaid.owner_eq ho ho' hn
  · have hbelow {o : Owner} (ho : o.Has total d st n) :
        o = .superBlock ∧ n = 0 ∨ o = .freeMap ∧ 1 ≤ n := by
      cases o with
      | superBlock => exact Or.inl ⟨rfl, ho⟩
      | freeMap => exact Or.inr ⟨rfl, ho.1⟩
      | record s => exact absurd (reserved_le_of_has h (Or.inl ⟨s, ho⟩)) hn
      | blocks s => exact absurd (reserved_le_of_has h (Or.inr (Or.inl ⟨s, ho⟩))) hn
      | callers => exact absurd (reserved_le_of_has h (Or.inr (Or.inr ho))) hn
    rcases hbelow ho with ⟨rfl, hz⟩ | ⟨rfl, hz⟩ <;> rcases hbelow ho' with ⟨rfl, hz'⟩ | ⟨rfl, hz'⟩
    · rfl
    · omega
    · omega
    · rfl

/-- The marks are those of the owned sectors. -/
theorem marks_iff_owner (h : (mapOf total).Tracks d (st.used d))
    (hn : n < sectorBits * blocksFor total.toNat) :
    (mapOf total).marks d n = true ↔ ∃ o : Owner, o.Has total d st n := by
  rw [h.marks_iff n hn, owned_used_iff, reserved_mapOf]
  constructor
  · rintro (hn | ⟨s, hs⟩ | ⟨s, hs⟩ | hc)
    · rcases Nat.eq_zero_or_pos n with hz | hpos
      · exact ⟨.superBlock, hz⟩
      · exact ⟨.freeMap, hpos, by omega⟩
    · exact ⟨.record s, hs⟩
    · exact ⟨.blocks s, hs⟩
    · exact ⟨.callers, hc⟩
  · rintro ⟨o, ho⟩
    cases o with
    | superBlock =>
      simp only [Owner.Has] at ho
      exact Or.inl (by omega)
    | freeMap =>
      simp only [Owner.Has] at ho
      exact Or.inl (by omega)
    | record s => exact Or.inr (Or.inl ⟨s, ho⟩)
    | blocks s => exact Or.inr (Or.inr (Or.inl ⟨s, ho⟩))
    | callers => exact Or.inr (Or.inr (Or.inr ho))

/-- Whatever belongs to somebody lies within the volume. -/
theorem lt_total_of_has (hm : (mapOf total).Fits total.toNat)
    (h : (mapOf total).Tracks d (st.used d)) (ho : o.Has total d st n) : n < total.toNat := by
  have hreserved : 1 + blocksFor total.toNat ≤ total.toNat := hm.reserved_le
  have hused (hn : Owned (st.used d) n) : n < total.toNat := by
    obtain ⟨id, hid, rfl⟩ := hn
    exact h.index_lt hid
  cases o with
  | superBlock =>
    simp only [Owner.Has] at ho
    omega
  | freeMap =>
    simp only [Owner.Has] at ho
    omega
  | record s => exact hused (owned_used_iff.2 (Or.inl ⟨s, ho⟩))
  | blocks s => exact hused (owned_used_iff.2 (Or.inr (Or.inl ⟨s, ho⟩)))
  | callers => exact hused (owned_used_iff.2 (Or.inr (Or.inr ho)))

/-- How many sectors are in use. -/
theorem Laid.card_used (h : Laid d st) : (st.used d).card = st.held.card +
    ∑ s ∈ st.live, (1 + (OpenInode.ofRecord s (recordAt d s)).status.blocks) := by
  rw [h.card_used_eq_occupied, FileStore.occupied]
  refine congrArg (st.held.card + ·) (Finset.sum_congr rfl fun s hs => ?_)
  rw [← (h.represents hs).size]
  rfl

end Accounting

namespace Machine

open Program LawfulBlockDevice

variable {δ : Type} [BlockDevice δ] [LawfulBlockDevice δ] {m : Machine δ FreeMap}

/-- Whom the sectors of a volume belong to, and what its free map says of them. -/
structure Accounted (total : UInt32) (m : Machine δ FreeMap) (st : FileStore) : Prop where
  owner_unique {o o' : Owner} {n : Nat} : o.Has total (image m.device) st n →
    o'.Has total (image m.device) st n → o = o'
  pointer_unique {s : SectorId} {t t' : PointerSlot} {x : SectorId} : s ∈ st.live →
    (recordAt (image m.device) s).pointerAt (image m.device) t = some x →
    (recordAt (image m.device) s).pointerAt (image m.device) t' = some x → t = t'
  marks_iff (n : Nat) : n < sectorBits * FreeMap.blocksFor total.toNat →
    ((Volume.mapOf total).marks (image m.device) n = true ↔
      ∃ o : Owner, o.Has total (image m.device) st n)
  /-- All that belongs to somebody lies within the volume. -/
  marked {o : Owner} {n : Nat} : o.Has total (image m.device) st n →
    n < total.toNat ∧ (Volume.mapOf total).marks (image m.device) n = true
  lt_total {n : Nat} : n < sectorBits * FreeMap.blocksFor total.toNat →
    (Volume.mapOf total).marks (image m.device) n = true → n < total.toNat
  freeCount : ∃ free w, (Volume.mapOf total).freeCount.run ⟨m.device, #[]⟩ = (.ok free, w) ∧
    w.device = m.device ∧ free + 1 + FreeMap.blocksFor total.toNat + st.held.card +
      ∑ s ∈ st.live, (1 + (OpenInode.ofRecord s (recordAt (image m.device) s)).status.blocks) =
        total.toNat

/-- The free map counts the sectors that nobody has, and changes nothing. -/
theorem OnVolume.freeCount_run (h : OnVolume total m st) :
    ∃ free w, (Volume.mapOf total).freeCount.run ⟨m.device, #[]⟩ = (.ok free, w) ∧
      w.device = m.device ∧ free + 1 + FreeMap.blocksFor total.toNat + st.held.card +
        ∑ s ∈ st.live, (1 + (OpenInode.ofRecord s (recordAt (image m.device) s)).status.blocks) =
          total.toNat := by
  obtain ⟨hm, hinUse⟩ := h.inUse
  obtain ⟨a, registered, hc⟩ := hinUse.consistent
  obtain ⟨-, htracks⟩ := hc.lends
  have hcard := htracks.card_le hm
  rw [Volume.reserved_mapOf, Volume.capacity_mapOf, hc.laid.card_used] at hcard
  have hcount := FreeMap.freeCount_ensures (A := (· < total.toNat)) (G := fun _ _ => False)
    (Q := fun x _ => x = _) hm htracks (fun _ hn => hn) rfl
  obtain ⟨free, w, hrun, hfree, hdevice, -⟩ :=
    hcount.run_silent (w := ⟨m.device, #[]⟩) fun k hk => Nat.lt_of_lt_of_le hk hinUse.size_le
  refine ⟨free, w, hrun, hdevice, ?_⟩
  rw [hfree, Volume.reserved_mapOf, Volume.capacity_mapOf, hc.laid.card_used]
  omega

theorem OnVolume.accounted (h : OnVolume total m st) : Accounted total m st := by
  have hcount := h.freeCount_run
  obtain ⟨hm, hinUse⟩ := h.inUse
  obtain ⟨a, registered, hc⟩ := hinUse.consistent
  obtain ⟨-, htracks⟩ := hc.lends
  have hbits := hm.capacity_le_bits
  refine ⟨owner_unique hc.laid htracks, fun hs ht ht' => ?_, fun n hn => marks_iff_owner htracks hn,
    fun {o k} ho => ?_, fun {k} hn hmark => ?_, hcount⟩
  · exact (hc.laid.represents hs).stored.linked.injective ht ht'
  · have hlt := lt_total_of_has hm htracks ho
    exact ⟨hlt, (marks_iff_owner htracks (hlt.trans_le hbits)).2 ⟨o, ho⟩⟩
  · rcases (htracks.marks_iff _ hn).1 hmark with hlt | ⟨id, hid, rfl⟩
    · exact Nat.lt_of_lt_of_le hlt hm.reserved_le
    · exact htracks.index_lt hid

/-- A run on a volume can go on with a sector for the callers. -/
theorem OnVolume.exists_allocated (h : OnVolume total m st)
    (hlt : 1 + FreeMap.blocksFor total.toNat + st.occupied < total.toNat) :
    ∃ (s : SectorId) (m' : Machine δ FreeMap), OnVolume total m' (st.after .allocate (some s)) ∧
      s ∉ st.live ∧ s ∉ st.held := by
  obtain ⟨hm, hinUse⟩ := h.inUse
  rw [← hinUse.laid.card_used_eq_occupied] at hlt
  obtain ⟨s, m', hx⟩ := hinUse.allocate_replies hlt
  obtain ⟨hnew, -⟩ := hinUse.after (o := .allocate) trivial hx
  exact ⟨s, m', h.step (o := .allocate) trivial hx, hnew⟩

/-- A run can go on with an inode on a sector that callers hold. -/
theorem OnVolume.exists_created (h : OnVolume total m st) {s : SectorId} (hs : s ∈ st.held)
    {length : Nat} (hlength : length ≤ maxFileSize) (kind : InodeKind)
    (hle : 1 + FreeMap.blocksFor total.toNat + st.occupied + totalSectors (dataBlocks length) ≤
      total.toNat) : ∃ m' : Machine δ FreeMap,
    OnVolume total m' (st.after (.createAt s length kind) (.ok ())) := by
  obtain ⟨hm, hinUse⟩ := h.inUse
  rw [← hinUse.laid.card_used_eq_occupied] at hle
  obtain ⟨m', hx⟩ := hinUse.createAt_replies hs hlength kind hle
  exact ⟨m', h.step (o := .createAt s length kind) hs hx⟩

/-- Besides the root directory there is a file that has an index block, and callers hold a
sector. -/
theorem accounted_populated : ∃ (m : Machine SectorArray FreeMap) (st : FileStore)
    (root s t : SectorId), OnVolume 300 m st ∧ st.live = {s, root} ∧ st.held = {t} ∧
      (st.file s).bytes.size = 51201 ∧ Accounted 300 m st := by
  have hsize : size (SectorArray.filled 300 7) = 300 := Array.size_replicate
  obtain ⟨m₀, root, h₀⟩ := exists_onVolume 300 (d := SectorArray.filled 300 7)
    (Nat.le_of_eq hsize.symm) (by decide)
  have hocc₀ := FileStore.occupied_initial root
  obtain ⟨s, m₁, h₁, hlive, hheld⟩ := h₀.exists_allocated (by
    rw [hocc₀]
    decide)
  have hocc₁ := FileStore.occupied_after_allocate hheld
  rw [hocc₀] at hocc₁
  have hs : s ∈ ((FileStore.initial root).after .allocate (some s)).held :=
    Finset.mem_insert_self s ∅
  obtain ⟨m₂, h₂⟩ := h₁.exists_created hs (show 51201 ≤ maxFileSize by decide) .file (by
    rw [hocc₁]
    decide)
  have hocc₂ := FileStore.occupied_after_createAt 51201 .file hs hlive
  rw [hocc₁] at hocc₂
  obtain ⟨t, m₃, h₃, -⟩ := h₂.exists_allocated (by
    rw [hocc₂]
    decide)
  refine ⟨m₃, _, root, s, t, h₃, rfl, ?_, ?_, h₃.accounted⟩
  · change insert t ((insert s ∅ : Finset SectorId).erase s) = {t}
    rw [Finset.erase_insert (Finset.notMem_empty s)]
    rfl
  · exact congrArg (fun f => f.bytes.size) (FileStore.file_setFile_self _ s _) |>.trans
      (File.size_blank .file 51201)

end Machine

end InodeVolume

import InodeVolume.Proofs.FileStore.Provision
import InodeVolume.Proofs.Volume.Ownership
import Mathlib.Order.Bounds.Basic

/-!
Operations fail only when they must. The number of free sectors tells beforehand whether an inode is
created, how far a file grows and how many bytes a write takes; and what an operation adds is
exactly what it takes from the free sectors.
-/
namespace InodeVolume

/-- Why an inode of `length` bytes is not created when `free` sectors are free. -/
def createRefusal (free length : Nat) : Option VolumeError :=
  if free = 0 then some .noSpace
  else if maxBlocks < dataBlocks length then some (.tooLarge length)
  else if 1 + totalSectors (dataBlocks length) ≤ free then none
  else some .noSpace

/-- How many more sectors a file of `blocks` data blocks needs to have block `i`. -/
def growthCost (blocks i : Nat) : Nat :=
  totalSectors (max blocks (i + 1)) - totalSectors blocks

/-- Why a file of `blocks` data blocks is not extended to a byte. -/
def extendRefusal (free blocks target : Nat) : Option VolumeError :=
  if maxBlocks ≤ target / 512 then some (.tooLarge target)
  else if growthCost blocks (target / 512) ≤ free then none
  else some .noSpace

/-- How many more sectors `count` bytes at `offset` need. -/
def writeCost (blocks offset count : Nat) : Nat :=
  if count = 0 then 0 else growthCost blocks ((offset + count - 1) / 512)

/-- There is room for `count` bytes at `offset`. -/
def RoomFor (free blocks offset count : Nat) : Prop :=
  count = 0 ∨ (offset + count - 1) / 512 < maxBlocks ∧
    growthCost blocks ((offset + count - 1) / 512) ≤ free

example : maxFileSize / 512 = maxBlocks := rfl

theorem dataBlocks_lengthAfter {n offset count : Nat} (hcount : count ≠ 0) :
    dataBlocks (lengthAfter n offset count) =
      max (dataBlocks n) ((offset + count - 1) / 512 + 1) := by
  rw [lengthAfter, if_neg hcount]
  unfold dataBlocks
  omega

/-- A write that stops only before a block that it cannot have takes as much as there is room
for. -/
theorem isGreatest_roomFor {free blocks offset size count : Nat} (hcount : count ≤ size)
    (hroom : RoomFor free blocks offset count) (hshort : count < size →
      BlockBarred (free + (1 + totalSectors blocks)) ((offset + count) / 512)) :
    IsGreatest {k | k ≤ size ∧ RoomFor free blocks offset k} count := by
  refine ⟨⟨hcount, hroom⟩, fun k hk => ?_⟩
  obtain ⟨hk, hkroom⟩ := hk
  by_contra hlt
  have hle : (offset + count) / 512 ≤ (offset + k - 1) / 512 :=
    Nat.div_le_div_right (by omega)
  rcases hkroom with hzero | ⟨hsmall, hcost⟩
  · omega
  · rcases hshort (by omega) with hlarge | hfew
    · omega
    · have hmono := totalSectors_mono (show (offset + count) / 512 + 1 ≤
        max blocks ((offset + k - 1) / 512 + 1) by omega)
      rw [growthCost] at hcost
      omega

namespace Machine

open Program LawfulBlockDevice

variable {δ : Type} [BlockDevice δ] {total : UInt32} {m m' : Machine δ FreeMap}
  {st : FileStore} {h : HandleId} {f : OpenFile} {free : Nat}

/-- The volume tells `free` when it is asked for the number of free sectors. -/
def CountsFree (total : UInt32) (m : Machine δ FreeMap) (free : Nat) : Prop :=
  ∃ w, (Volume.mapOf total).freeCount.run ⟨m.device, #[]⟩ = (.ok free, w)

theorem CountsFree.unique {free' : Nat} (h : m.CountsFree total free)
    (h' : m.CountsFree total free') : free = free' := by
  obtain ⟨w, h⟩ := h
  obtain ⟨w', h'⟩ := h'
  rw [h] at h'
  cases h'
  rfl

variable [LawfulBlockDevice δ]

/-- Every sector is in use or free. -/
theorem OnVolume.countsFree (h : OnVolume total m st) : ∃ free, m.CountsFree total free ∧
    1 + FreeMap.blocksFor total.toNat + st.occupied + free = total.toNat := by
  obtain ⟨free, w, hrun, -, hfree⟩ := h.freeCount_run
  refine ⟨free, ⟨w, hrun⟩, ?_⟩
  obtain ⟨hm, hu⟩ := h.inUse
  obtain ⟨a, registered, hc⟩ := hu.consistent
  have hcard := hc.laid.card_used
  rw [hc.laid.card_used_eq_occupied] at hcard
  omega

/-- What a program comes to know holds after its run. -/
theorem InUse.replies_informed {σ : Type} [Allocator σ] {n : Nat} {l : Lender σ n}
    {m m' : Machine δ σ} {o : Operation} {x : o.Reply} {K : Set Nat}
    {Q : o.Reply × Registry σ → Image → Set Nat → Prop} (h : InUse l m st) (hlegal : st.Legal o)
    (hx : m.Replies o x m')
    (hq : ((o.perform ⟨0⟩).run m.registry).Informed Q (image m.device) K) :
    ∃ K', Q (x, m'.registry) (image m'.device) K' := by
  have hrefusal := h.refusal_eq_none hlegal hx
  obtain ⟨a, registered, hc⟩ := h.consistent
  obtain ⟨journal, hrun⟩ := hx
  exact hq.of_run (w := ⟨m.device, #[]⟩) (hc.perform_ensures hlegal hrefusal)
    (fun k hk => Nat.lt_of_lt_of_le hk h.size_le) hrun

theorem InUse.blocks_le {σ : Type} [Allocator σ] {n : Nat} {l : Lender σ n} {m : Machine δ σ}
    {s : SectorId} (h : InUse l m st) (hs : s ∈ st.live) :
    dataBlocks (st.file s).bytes.size ≤ maxBlocks := by
  obtain ⟨a, registered, hc⟩ := h.consistent
  rw [← (hc.laid.represents hs).size]
  exact (hc.laid.represents hs).stored.blocks_le

/-- An inode is created unless there is a reason not to, and then nothing becomes of it. -/
def CreatesExactly (total : UInt32) (m : Machine δ FreeMap) (free length : Nat)
    (kind : InodeKind) : Prop :=
  match createRefusal free length with
  | some e => ∃ m', m.Replies (.create length kind) (.error e) m' ∧ m'.CountsFree total free
  | none => ∃ s m' rest, m.Replies (.create length kind) (.ok s) m' ∧ m'.CountsFree total rest ∧
    rest + (1 + totalSectors (dataBlocks length)) = free

/-- The same of the extension of a file of `blocks` data blocks. -/
def ExtendsExactly (total : UInt32) (m : Machine δ FreeMap) (free blocks : Nat) (h : HandleId)
    (target : Nat) : Prop :=
  match extendRefusal free blocks target with
  | some e => ∃ m', m.Replies (.extend h target) (.error e) m' ∧ m'.CountsFree total free
  | none => ∃ id m' rest, m.Replies (.extend h target) (.ok id) m' ∧ m'.CountsFree total rest ∧
    rest + growthCost blocks (target / 512) = free

/-- As many bytes are written as there is room for. -/
def WritesExactly (total : UInt32) (m : Machine δ FreeMap) (free blocks : Nat) (h : HandleId)
    (offset : Nat) (buffer : Bytes) : Prop :=
  ∃ count m' rest, m.Replies (.writeAt h offset buffer) count m' ∧
    IsGreatest {k | k ≤ buffer.size ∧ RoomFor free blocks offset k} count ∧
    m'.CountsFree total rest ∧ rest + writeCost blocks offset count = free

structure Frugal (total : UInt32) (m : Machine δ FreeMap) (st : FileStore) (free : Nat) :
    Prop where
  create (length : Nat) (kind : InodeKind) : m.CreatesExactly total free length kind
  extend {h : HandleId} {f : OpenFile} (target : Nat) : st.opened h = some f →
    m.ExtendsExactly total free (dataBlocks (st.fileOf f).bytes.size) h target
  writeAt {h : HandleId} {f : OpenFile} {offset : Nat} (buffer : Bytes) : st.opened h = some f →
    f.denials = 0 → offset < 2 ^ 64 →
    m.WritesExactly total free (dataBlocks (st.fileOf f).bytes.size) h offset buffer

namespace OnVolume

theorem room_eq (h : OnVolume total m st) (hfree : m.CountsFree total free) :
    1 + FreeMap.blocksFor total.toNat + st.occupied + free = total.toNat := by
  obtain ⟨free', hfree', hsum⟩ := h.countsFree
  rwa [hfree.unique hfree']

theorem create_exact (h : OnVolume total m st) (hfree : m.CountsFree total free) (length : Nat)
    (kind : InodeKind) : m.CreatesExactly total free length kind := by
  have hsum := h.room_eq hfree
  obtain ⟨hm, hu⟩ := h.inUse
  obtain ⟨a, registered, hc⟩ := hu.consistent
  obtain ⟨x, m', hx, hadmits, -⟩ := hu.attempt_ok (o := .create length kind) trivial rfl
  have hafter := h.step (o := .create length kind) trivial hx
  obtain ⟨rest, hrest, hsum'⟩ := hafter.countsFree
  have hroom : (Volume.mapOf total).reserved + (st.used (image m.device)).card + free =
      (Volume.mapOf total).capacity := by
    rw [hc.laid.card_used_eq_occupied]
    exact hsum
  obtain ⟨K', -, hrefused⟩ := hu.replies_informed (o := .create length kind) trivial hx
    (hc.create_informed (K := Set.univ) length kind hroom fun _ _ => trivial)
  cases x with
  | error e =>
    have hrefusal : createRefusal free length = some e := by
      unfold createRefusal
      rcases hrefused e rfl with ⟨rfl, h0⟩ | ⟨hpos, ⟨rfl, hlarge⟩ | ⟨rfl, hle, hfew⟩⟩
      · rw [if_pos h0]
      · rw [if_neg (Nat.ne_of_gt hpos), if_pos hlarge]
      · rw [if_neg (Nat.ne_of_gt hpos), if_neg (Nat.not_lt.2 hle), if_neg (Nat.not_le.2 hfew)]
    rw [CreatesExactly, hrefusal]
    obtain rfl : free = rest := by
      rw [show st.after (.create length kind) (.error e) = st from rfl] at hsum'
      omega
    exact ⟨m', hx, hrest⟩
  | ok s =>
    have hblocks := dataBlocks_le hadmits.1
    have hoccupied : (st.after (.create length kind) (.ok s)).occupied =
        st.occupied + (1 + totalSectors (dataBlocks length)) := by
      have hadd := FileStore.occupied_addFile (f := .blank kind length) hadmits.2.1
      rwa [File.size_blank] at hadd
    have hrefusal : createRefusal free length = none := by
      rw [createRefusal, if_neg (by omega), if_neg (Nat.not_lt.2 hblocks), if_pos (by omega)]
    rw [CreatesExactly, hrefusal]
    exact ⟨s, m', rest, hx, hrest, by omega⟩

/-- There is room for an open inode in what is free and in what it has. -/
theorem others_eq {n : Nat} {fm : FreeMap} {hm : fm.Fits n} {registered : List HandleId} {d : Image}
    {reg : Registry FreeMap} {a : FreeMap} (hc : Serving (FreeMap.lender hm) a registered d reg st)
    (hf : st.opened h = some f) (hsum : fm.reserved + st.occupied + free = fm.capacity) :
    fm.reserved + (st.others d f.inode).card +
      (free + (1 + totalSectors (dataBlocks (st.fileOf f).bytes.size))) = fm.capacity := by
  have hlive := hc.live hf
  have hused := hc.laid.card_used_eq_occupied
  rw [FileStore.used_eq_union hlive, Finset.card_union_of_disjoint (hc.laid.disjoint_others hlive),
    (hc.represents hf).card_footprint] at hused
  omega

theorem extend_exact (h : OnVolume total m st) (hfree : m.CountsFree total free) {k : HandleId}
    (hf : st.opened k = some f) (target : Nat) :
    m.ExtendsExactly total free (dataBlocks (st.fileOf f).bytes.size) k target := by
  have hsum := h.room_eq hfree
  have hlegal : st.Legal (.extend k target) := ⟨f, hf⟩
  obtain ⟨hm, hu⟩ := h.inUse
  obtain ⟨a, registered, hc⟩ := hu.consistent
  obtain ⟨x, m', hx, hadmits, -⟩ := hu.attempt_ok hlegal rfl
  obtain ⟨rest, hrest, hsum'⟩ := (h.step hlegal hx).countsFree
  obtain ⟨K', -, hrefused⟩ := hu.replies_informed hlegal hx
    (hc.extend_informed (K := Set.univ) hf target (others_eq hc hf hsum) (fun _ _ => trivial)
      fun _ _ => trivial)
  obtain ⟨blocks, hblocks⟩ : ∃ b, dataBlocks (st.fileOf f).bytes.size = b := ⟨_, rfl⟩
  have hmax := totalSectors_mono (Nat.le_max_right blocks (target / 512 + 1))
  have hmax' := totalSectors_mono (Nat.le_max_left blocks (target / 512 + 1))
  rw [hblocks] at hrefused ⊢
  cases x with
  | error e =>
    have hrefusal : extendRefusal free blocks target = some e := by
      unfold extendRefusal growthCost
      rcases hrefused e rfl with ⟨rfl, hlarge⟩ | ⟨rfl, hsmall, hfew⟩
      · rw [if_pos hlarge]
      · rw [if_neg (Nat.not_le.2 hsmall), if_neg (by omega)]
    rw [ExtendsExactly, hrefusal]
    obtain rfl : free = rest := by
      rw [show st.after (.extend k target) (.error e) = st from rfl] at hsum'
      omega
    exact ⟨m', hx, hrest⟩
  | ok id =>
    have htarget : target < maxFileSize := hadmits
    have hgrown : dataBlocks ((st.fileOf f).extended target).bytes.size =
        max blocks (target / 512 + 1) := by
      rw [File.extended, Bytes.size_padded, ← hblocks, dataBlocks_max_succ]
    have hoccupied := FileStore.occupied_setBytes (b := ((st.fileOf f).extended target).bytes)
      (hc.live hf)
    have hafter : st.after (.extend k target) (.ok id) = _ := FileStore.after_extend hf
    rw [← hafter, hgrown,
      show dataBlocks (st.file f.inode).bytes.size = blocks from hblocks] at hoccupied
    have hsmall : target / 512 < maxBlocks := lt_maxFileSize_iff.1 htarget
    have hrefusal : extendRefusal free blocks target = none := by
      unfold extendRefusal growthCost
      rw [if_neg (Nat.not_le.2 hsmall), if_pos (by omega)]
    rw [ExtendsExactly, hrefusal]
    exact ⟨id, m', rest, hx, hrest, by unfold growthCost; omega⟩

theorem writeAt_exact (h : OnVolume total m st) (hfree : m.CountsFree total free) {k : HandleId}
    (hf : st.opened k = some f) (hdenials : f.denials = 0) {offset : Nat}
    (hoffset : offset < 2 ^ 64) (buffer : Bytes) :
    m.WritesExactly total free (dataBlocks (st.fileOf f).bytes.size) k offset buffer := by
  have hsum := h.room_eq hfree
  have hlegal : st.Legal (.writeAt k offset buffer) := ⟨⟨f, hf⟩, hoffset⟩
  obtain ⟨hm, hu⟩ := h.inUse
  obtain ⟨a, registered, hc⟩ := hu.consistent
  obtain ⟨count, m', hx, hadmits, hu'⟩ := hu.attempt_ok hlegal rfl
  obtain ⟨rest, hrest, hsum'⟩ := (h.step hlegal hx).countsFree
  obtain ⟨K', -, hshort⟩ := hu.replies_informed hlegal hx
    (hc.writeAt_informed (K := Set.univ) hf hoffset buffer (others_eq hc hf hsum)
      (fun _ _ => trivial) fun _ _ => trivial)
  obtain ⟨hcount, -, -⟩ := hadmits f hf
  obtain ⟨blocks, hblocks⟩ : ∃ b, dataBlocks (st.fileOf f).bytes.size = b := ⟨_, rfl⟩
  have hoccupied := FileStore.occupied_setBytes
    (b := ((st.fileOf f).written offset buffer count).bytes) (hc.live hf)
  rw [← FileStore.after_writeAt hf, (st.fileOf f).size_written offset hcount,
    show dataBlocks (st.file f.inode).bytes.size = blocks from hblocks] at hoccupied
  have hcost : st.occupied + writeCost blocks offset count =
      (st.after (.writeAt k offset buffer) count).occupied := by
    unfold writeCost growthCost
    by_cases hzero : count = 0
    · rw [hzero, lengthAfter, if_pos rfl, hblocks] at hoccupied
      rw [if_pos hzero, hzero]
      omega
    · have hmono := totalSectors_mono (Nat.le_max_left blocks ((offset + count - 1) / 512 + 1))
      rw [dataBlocks_lengthAfter hzero, hblocks] at hoccupied
      rw [if_neg hzero]
      omega
  have hroom : RoomFor free blocks offset count := by
    by_cases hzero : count = 0
    · exact Or.inl hzero
    · have hle := hu'.blocks_le (s := f.inode) (FileStore.after_writeAt hf ▸ hc.live hf)
      have hfile : ((st.after (.writeAt k offset buffer) count).file f.inode).bytes =
          ((st.fileOf f).written offset buffer count).bytes := by
        rw [FileStore.after_writeAt hf, FileStore.bytes_setBytes]
      rw [hfile, (st.fileOf f).size_written offset hcount, dataBlocks_lengthAfter hzero] at hle
      rw [writeCost, if_neg hzero] at hcost
      exact Or.inr ⟨by omega, by omega⟩
  rw [hblocks] at hshort ⊢
  refine ⟨count, m', rest, hx, isGreatest_roomFor hcount hroom fun hlt => ?_, hrest, by omega⟩
  rcases hshort hlt with hdenied | hbarred
  · omega
  · exact hbarred

/-- An operation fails exactly if there is no room for what it would add. -/
theorem frugal (h : OnVolume total m st) :
    ∃ free, m.CountsFree total free ∧ Frugal total m st free := by
  obtain ⟨free, hfree, -⟩ := h.countsFree
  exact ⟨free, hfree, h.create_exact hfree, fun target hf => h.extend_exact hfree hf target,
    fun buffer hf hdenials hoffset => h.writeAt_exact hfree hf hdenials hoffset buffer⟩

end OnVolume

theorem frugal_root_directory : ∃ (m : Machine SectorArray FreeMap) (st : FileStore)
    (h : HandleId) (f : OpenFile) (free : Nat), OnVolume 100 m st ∧ st.opened h = some f ∧
      f.denials = 0 ∧ m.CountsFree 100 free ∧ Frugal 100 m st free := by
  obtain ⟨m, root, h, hm⟩ := exists_onVolume_opened 100 (d := SectorArray.filled 100 7)
    (by decide) (by decide)
  obtain ⟨free, hfree, hfrugal⟩ := OnVolume.frugal hm
  exact ⟨m, _, h, _, free, hm, FileStore.opened_setOpened_self _ _ _, rfl, hfree, hfrugal⟩

end Machine

end InodeVolume

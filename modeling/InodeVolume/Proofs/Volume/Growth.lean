import InodeVolume.Proofs.Volume.Mounting
import InodeVolume.Proofs.Volume.Room

/-!
Growth does not depend on its path. An inode that is extended step by step, or by writes, takes the
same sectors in the same order as one that is extended at once or created with its length; so the
device is the same in the end, but for what was written to the file.
-/
namespace InodeVolume

theorem File.bytes_extended_blank (kind : InodeKind) {length : Nat} (hpos : 0 < length) :
    ((File.blank kind 0).extended (length - 1)).bytes = (File.blank kind length).bytes := by
  rw [File.extended, Nat.sub_add_cancel hpos]
  simp [File.blank, Bytes.padded]

namespace FileStore

variable {st : FileStore} {s : SectorId} {length : Nat} {kind : InodeKind}

/-- What is enough for an inode of some length is enough for an empty one to get that length. -/
theorem hasRoom_opened_new {total : UInt32} {k : HandleId} (hs : s ∈ st.held) (hnew : s ∉ st.live)
    (hpos : 0 < length) (hlength : length ≤ maxFileSize)
    (hroom : 1 + FreeMap.blocksFor total.toNat + st.occupied + totalSectors (dataBlocks length) ≤
      total.toNat) :
    ((st.after (.createAt s 0 kind) (.ok ())).setOpened k (some ⟨s, 1, false, 0⟩)).HasRoom total
      ⟨s, 1, false, 0⟩ ((length - 1) / 512) := by
  have hfile : ((st.after (.createAt s 0 kind) (.ok ())).setOpened k
      (some ⟨s, 1, false, 0⟩)).fileOf ⟨s, 1, false, 0⟩ = .blank kind 0 := st.file_setFile_self s _
  have hend : max (dataBlocks 0) ((length - 1) / 512 + 1) = dataBlocks length := by
    rw [dataBlocks_eq_succ hpos]
    exact Nat.max_eq_right (Nat.succ_le_succ (Nat.zero_le _))
  have hmono := totalSectors_mono (dataBlocks_mono (Nat.zero_le length))
  constructor
  · exact lt_maxFileSize_iff.1 ((Nat.sub_lt hpos Nat.one_pos).trans_le hlength)
  · rw [hfile, File.size_blank, growthCost, hend]
    change _ + (st.after (.createAt s 0 kind) (.ok ())).occupied + _ ≤ _
    rw [occupied_after_createAt 0 kind hs hnew]
    omega

end FileStore

namespace Machine

open Program LawfulBlockDevice

variable {δ : Type} [BlockDevice δ] {m m₁ : Machine δ FreeMap} {st : FileStore} {s : SectorId}
  {length : Nat} {kind : InodeKind} {total : UInt32}

/-- Growth leads to the same, whichever way it takes. -/
structure GrowsAlike [LawfulBlockDevice δ] (total : UInt32) (m : Machine δ FreeMap)
    (st : FileStore) : Prop where
  extend {k : HandleId} {f : OpenFile} {targets : List Nat} {last : Nat} {id : SectorId}
    {m₁ : Machine δ FreeMap} : st.opened k = some f → last ∈ targets →
    (∀ t ∈ targets, t ≤ last) → m.Replies (.extend k last) (.ok id) m₁ →
      ∃ m', ExtendsAll k m targets m' ∧ Alike m₁ m'
  createAt_extend {s : SectorId} {length : Nat} {kind : InodeKind} {targets : List Nat}
    {m₁ : Machine δ FreeMap} : s ∈ st.held → 0 < length → length - 1 ∈ targets →
    (∀ t ∈ targets, t ≤ length - 1) → m.Replies (.createAt s length kind) (.ok ()) m₁ →
      ∃ m₂ k m₃ m₄, m.Replies (.createAt s 0 kind) (.ok ()) m₂ ∧
        m₂.Replies (.openAt s) (.ok k) m₃ ∧ ExtendsAll k m₃ targets m₄ ∧
        size m₄.device = size m₁.device ∧ image m₄.device = image m₁.device
  createAt_writeAt {s : SectorId} {length : Nat} {kind : InodeKind} {buffers : List Bytes}
    {m₁ : Machine δ FreeMap} : s ∈ st.held → 0 < length → (Bytes.joined buffers).size = length →
    m.Replies (.createAt s length kind) (.ok ()) m₁ →
      ∃ m₂ k m₃ m₄, m.Replies (.createAt s 0 kind) (.ok ()) m₂ ∧
        m₂.Replies (.openAt s) (.ok k) m₃ ∧ WritesAll k m₃ 0 buffers m₄ ∧
        size m₄.device = size m₁.device ∧
        SameButContents (Volume.mapOf total) s (image m₁.device) (image m₄.device)

variable [LawfulBlockDevice δ]

/-- A new inode is all zeros. -/
theorem InUse.createAt_represents {σ : Type} [Allocator σ] {n : Nat} {l : Lender σ n}
    {m m₁ : Machine δ σ} (hu : InUse l m st) (hs : s ∈ st.held)
    (hx : m.Replies (.createAt s length kind) (.ok ()) m₁) :
    Represents (image m₁.device) s (.blank kind length) := by
  have hlegal : st.Legal (.createAt s length kind) := hs
  have hrep := (hu.after hlegal hx).2.represents (Finset.mem_insert_self s st.live)
  rwa [show (st.after (.createAt s length kind) (.ok ())).file s = _ from
    st.file_setFile_self s _] at hrep

/-- A new inode has grown from nothing. -/
theorem InUse.createAt_grownOn {n : Nat} {map : FreeMap} {hm : map.Fits n}
    (hu : InUse (FreeMap.lender hm) m st) (hs : s ∈ st.held)
    (hsused : s ∈ st.used (image m.device)) (hx : m.Replies (.createAt s length kind) (.ok ()) m₁) :
    GrownOn map (.ofCreation (image m.device) s (st.used (image m.device)) kind hsused)
      (image m₁.device) := by
  obtain ⟨a, registered, hc⟩ := hu.consistent
  have hlegal : st.Legal (.createAt s length kind) := hs
  obtain ⟨⟨hlength, -⟩, -⟩ := hu.after hlegal hx
  have hserved : (((Operation.createAt s length kind).perform ⟨0⟩).run m.registry).Ensures anywhere
      anyWrite (fun x d' => x.1 = .ok () → ∃ ids,
        Grown map (.ofCreation (image m.device) s (st.used (image m.device)) kind hsused) ids
          (dataBlocks length) (recordAt d' s) d') (image m.device) := by
    rw [Operation.perform, RegistryM.served_run hc.table_eq, ensures_bind]
    exact (Store.createAt_grown kind hm hsused hc.tracks hlength).imp fun _ _ hx => hx.2
  obtain ⟨-, hgrown, -⟩ := hu.replies_informed (K := Set.univ) hlegal hx
    (hserved.informed fun _ _ => trivial)
  obtain ⟨ids, hgrown⟩ := hgrown rfl
  have hsize : (recordAt (image m₁.device) s).size = length := by
    rw [(hu.createAt_represents hs hx).size, File.size_blank]
  rw [← hsize] at hgrown
  exact ⟨ids, hgrown⟩

/-- A new inode that nobody has open is opened. -/
theorem InUse.openAt_new {σ : Type} [Allocator σ] {n : Nat} {l : Lender σ n} {m : Machine δ σ}
    (hu : InUse l m st) (hs : s ∈ st.live) (hnew : ∀ k f, st.opened k = some f → f.inode ≠ s) :
    ∃ k m', m.Replies (.openAt s) (.ok k) m' ∧ m'.device = m.device ∧
      st.after (.openAt s) (.ok k) = st.setOpened k (some ⟨s, 1, false, 0⟩) := by
  obtain ⟨k, m', f, hx, hdevice, -⟩ := hu.openAt_replies hs
  obtain ⟨hadmits, -⟩ := hu.after (o := .openAt s) hs hx
  refine ⟨k, m', hx, hdevice, FileStore.after_openAt ?_ s⟩
  rw [Option.eq_none_iff_forall_ne_some]
  intro g hg
  rw [FileStore.Admits, hg] at hadmits
  exact hnew k g hg hadmits

namespace OnVolume

/-- An inode that is created fits in. -/
theorem room_of_createAt (h : OnVolume total m st) (hs : s ∈ st.held) (hnew : s ∉ st.live)
    (hx : m.Replies (.createAt s length kind) (.ok ()) m₁) :
    1 + FreeMap.blocksFor total.toNat + st.occupied + totalSectors (dataBlocks length) ≤
      total.toNat := by
  obtain ⟨free, -, hsum⟩ := (h.step (o := .createAt s length kind) hs hx).countsFree
  rw [FileStore.occupied_after_createAt length kind hs hnew] at hsum
  omega

/-- Where an inode of some length can be created, an empty one can, and there is room for it to get
that length. -/
theorem exists_seedling (h : OnVolume total m st) (hs : s ∈ st.held) (hpos : 0 < length)
    (hx : m.Replies (.createAt s length kind) (.ok ()) m₁) :
    ∃ (origin : Outset) (m₂ : Machine δ FreeMap) (k : HandleId) (m₃ : Machine δ FreeMap)
      (st₃ : FileStore), origin.sector = s ∧ GrownOn (Volume.mapOf total) origin (image m₁.device) ∧
      m.Replies (.createAt s 0 kind) (.ok ()) m₂ ∧ m₂.Replies (.openAt s) (.ok k) m₃ ∧
      size m₃.device = size m₁.device ∧ OnVolume total m₃ st₃ ∧
      st₃.opened k = some ⟨s, 1, false, 0⟩ ∧ st₃.file s = .blank kind 0 ∧
      st₃.HasRoom total ⟨s, 1, false, 0⟩ ((length - 1) / 512) ∧
      HasGrown (Volume.mapOf total) origin k ⟨s, 1, false, 0⟩ m₃ m₃ := by
  obtain ⟨hm, hu⟩ := h.inUse
  obtain ⟨a, registered, hc⟩ := hu.consistent
  have hlegal (n : Nat) : st.Legal (.createAt s n kind) := hs
  obtain ⟨⟨hlength, hnew⟩, -⟩ := hu.after (hlegal length) hx
  have hsused : s ∈ st.used (image m.device) := Finset.mem_union_left _ hs
  have hroom := h.room_of_createAt hs hnew hx
  have hmono := totalSectors_mono (dataBlocks_mono (Nat.zero_le length))
  obtain ⟨m₂, hx₂⟩ := hu.createAt_replies hs (Nat.zero_le _) kind (by
    rw [Volume.reserved_mapOf, Volume.capacity_mapOf, hc.laid.card_used_eq_occupied]
    omega)
  have h₂ := h.step (hlegal 0) hx₂
  obtain ⟨-, hu₂⟩ := hu.after (hlegal 0) hx₂
  obtain ⟨k, m₃, hx₃, hdevice, hafter⟩ := hu₂.openAt_new (Finset.mem_insert_self s st.live)
    fun k f hf hfs => hnew (hfs ▸ hc.live hf)
  have h₃ := h₂.step (o := .openAt s) (Finset.mem_insert_self s st.live) hx₃
  rw [hafter] at h₃
  obtain ⟨hm₃, hu₃⟩ := h₃.inUse
  have hopened := FileStore.opened_setOpened_self
    (st.after (.createAt s 0 kind) (.ok ())) k (some ⟨s, 1, false, 0⟩)
  have hgrown := hu.createAt_grownOn hs hsused hx₂
  rw [← hdevice] at hgrown
  refine ⟨_, m₂, k, m₃, _, rfl, hu.createAt_grownOn hs hsused hx, hx₂, hx₃, ?_, h₃, hopened,
    st.file_setFile_self s _, FileStore.hasRoom_opened_new hs hnew hpos hlength hroom,
    .of_grownOn hu₃ hopened rfl hgrown⟩
  rw [hdevice, hu.size_eq (hlegal 0) hx₂, hu.size_eq (hlegal length) hx]

theorem extendsAll_alike {targets : List Nat} {last : Nat} {id : SectorId}
    (h : OnVolume total m st) (hf : st.opened k = some f) (hlast : last ∈ targets)
    (hle : ∀ t ∈ targets, t ≤ last) (hx : m.Replies (.extend k last) (.ok id) m₁) :
    ∃ m', ExtendsAll k m targets m' ∧ Alike m₁ m' := by
  obtain ⟨hm, hu⟩ := h.inUse
  obtain ⟨origin, -, -, -, hg⟩ := HasGrown.refl hu hf
  have hroom := (h.extend_iff hf).1 ⟨id, m₁, hx⟩
  obtain ⟨m', hall, hg', h'⟩ := h.exists_extendsAll hf hroom hle hg
  have h₁ := h.step (o := .extend k last) ⟨f, hf⟩ hx
  rw [FileStore.after_extend hf] at h₁
  rw [File.foldl_extended _ hle hlast] at h'
  exact ⟨m', hall, h₁.alike_of_hasGrown h' hf (hg.extend hu hf hx) hg'⟩

/-- An empty inode that is extended to a length has the image of one created with the length. -/
theorem createAt_extendsAll {targets : List Nat} (h : OnVolume total m st) (hs : s ∈ st.held)
    (hpos : 0 < length) (hlast : length - 1 ∈ targets) (hle : ∀ t ∈ targets, t ≤ length - 1)
    (hx : m.Replies (.createAt s length kind) (.ok ()) m₁) :
    ∃ m₂ k m₃ m₄, m.Replies (.createAt s 0 kind) (.ok ()) m₂ ∧ m₂.Replies (.openAt s) (.ok k) m₃ ∧
      ExtendsAll k m₃ targets m₄ ∧ size m₄.device = size m₁.device ∧
      image m₄.device = image m₁.device := by
  obtain ⟨origin, m₂, k, m₃, st₃, rfl, hgrown, hx₂, hx₃, hsize, h₃, hopened, hfile, hroom, hg⟩ :=
    h.exists_seedling hs hpos hx
  obtain ⟨m₄, hall, hg₄, h₄⟩ := h₃.exists_extendsAll hopened hroom hle hg
  refine ⟨m₂, k, m₃, m₄, hx₂, hx₃, hall, hg₄.size_eq.trans hsize, ?_⟩
  obtain ⟨hm, hu⟩ := h.inUse
  obtain ⟨_, hu₄⟩ := h₄.inUse
  have hrep := hu.createAt_represents hs hx
  have hrep₄ := hu₄.represents (h₃.live hopened)
  rw [FileStore.setBytes, FileStore.file_setFile_self, File.foldl_extended _ hle hlast,
    FileStore.fileOf, hfile, File.bytes_extended_blank kind hpos] at hrep₄
  exact hgrown.image_eq hg₄.grownOn (hrep₄.size.trans hrep.size.symm)
    fun p => (hrep₄.byte p).trans (hrep.byte p).symm

/-- An empty inode that is written up to a length differs from one created with the length only in
the sectors of the contents. -/
theorem createAt_writesAll {buffers : List Bytes} (h : OnVolume total m st) (hs : s ∈ st.held)
    (hpos : 0 < length) (hlength : (Bytes.joined buffers).size = length)
    (hx : m.Replies (.createAt s length kind) (.ok ()) m₁) :
    ∃ m₂ k m₃ m₄, m.Replies (.createAt s 0 kind) (.ok ()) m₂ ∧ m₂.Replies (.openAt s) (.ok k) m₃ ∧
      WritesAll k m₃ 0 buffers m₄ ∧ size m₄.device = size m₁.device ∧
      SameButContents (Volume.mapOf total) s (image m₁.device) (image m₄.device) := by
  obtain ⟨origin, m₂, k, m₃, st₃, rfl, hgrown, hx₂, hx₃, hsize, h₃, hopened, hfile, hroom, hg⟩ :=
    h.exists_seedling hs hpos hx
  have haccepts : st₃.Accepts total ⟨origin.sector, 1, false, 0⟩ 0 (Bytes.joined buffers).size := by
    rw [hlength]
    exact Or.inr ⟨rfl, by rwa [Nat.zero_add]⟩
  obtain ⟨m₄, hall, hg₄, h₄⟩ := h₃.exists_writesAll hopened (by decide) haccepts hg
  refine ⟨m₂, k, m₃, m₄, hx₂, hx₃, hall, hg₄.size_eq.trans hsize, ?_⟩
  obtain ⟨hm, hu⟩ := h.inUse
  obtain ⟨_, hu₄⟩ := h₄.inUse
  have hrep := hu.createAt_represents hs hx
  have hrep₄ := hu₄.represents (s := origin.sector)
    (FileStore.after_writeAt hopened ▸ h₃.live hopened)
  rw [FileStore.after_writeAt hopened, FileStore.setBytes, FileStore.file_setFile_self] at hrep₄
  refine hgrown.sameButContents hg₄.grownOn (hrep₄.size.trans (Eq.trans ?_ hrep.size.symm))
  have hpositive : ¬ length = 0 := Nat.ne_of_gt hpos
  rw [File.size_written _ _ (Nat.le_refl _), FileStore.fileOf, hfile, File.size_blank,
    File.size_blank, hlength, lengthAfter, if_neg hpositive]
  omega

/-- The calls by which an inode grows make no difference to what it grows into. -/
theorem growsAlike (h : OnVolume total m st) : GrowsAlike total m st where
  extend hf hlast hle hx := h.extendsAll_alike hf hlast hle hx
  createAt_extend hs hpos hlast hle hx := h.createAt_extendsAll hs hpos hlast hle hx
  createAt_writeAt hs hpos hlength hx := h.createAt_writesAll hs hpos hlength hx

end OnVolume

/-- The root directory is extended to three blocks in three steps, and an inode of three blocks can
be created. -/
theorem growsAlike_three_blocks : ∃ (m m₁ m' m₂ : Machine SectorArray FreeMap) (st : FileStore)
    (k : HandleId) (s id : SectorId), OnVolume 100 m st ∧ s ∈ st.held ∧
      m.Replies (.extend k 1499) (.ok id) m₁ ∧ ExtendsAll k m [600, 1499, 0] m' ∧ Alike m₁ m' ∧
      m.Replies (.createAt s 1500 .file) (.ok ()) m₂ ∧ GrowsAlike 100 m st := by
  obtain ⟨m₀, st₀, k, f, h₀, hf, -, hoccupied, hsize⟩ := exists_opened_root
  obtain ⟨hm, hu₀⟩ := h₀.inUse
  obtain ⟨a, registered, hc₀⟩ := hu₀.consistent
  obtain ⟨s, m, hx⟩ := hu₀.allocate_replies (by
    rw [hc₀.laid.card_used_eq_occupied, hoccupied]
    decide)
  obtain ⟨⟨-, hnew⟩, -⟩ := hu₀.after (o := .allocate) trivial hx
  have h := h₀.step (o := .allocate) trivial hx
  obtain ⟨_, hu⟩ := h.inUse
  obtain ⟨a, registered, hc⟩ := hu.consistent
  have hthree : (st₀.after .allocate (some s)).occupied = 3 := by
    rw [FileStore.occupied_after_allocate hnew, hoccupied]
  have hroom : (st₀.after .allocate (some s)).HasRoom 100 f (1499 / 512) := by
    refine ⟨by decide, ?_⟩
    rw [hthree, show ((st₀.after .allocate (some s)).fileOf f).bytes.size = 0 from hsize]
    decide
  obtain ⟨id, m₁, hx₁⟩ := (h.extend_iff (k := k) hf).2 hroom
  have hs : s ∈ (st₀.after .allocate (some s)).held := Finset.mem_insert_self s st₀.held
  obtain ⟨m₂, hx₂⟩ := hu.createAt_replies hs (show 1500 ≤ maxFileSize by decide) .file (by
    rw [hc.laid.card_used_eq_occupied, hthree]
    decide)
  obtain ⟨m', hall, ha⟩ := h.growsAlike.extend hf
    (show 1499 ∈ [600, 1499, 0] by decide) (by decide) hx₁
  exact ⟨m, m₁, m', m₂, _, k, s, id, h, hs, hx₁, hall, ha, hx₂, h.growsAlike⟩

end Machine

end InodeVolume

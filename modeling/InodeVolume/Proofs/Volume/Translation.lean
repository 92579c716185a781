import InodeVolume.Proofs.Volume.Mounting
import InodeVolume.Proofs.Volume.Room

/-!
Where the bytes of an inode are. A position has a sector if it is in the file or right behind it in
a block that the file has; two positions have the same sector only if they are in the same block;
and the sector stays the same as long as there is the inode, whatever is done with it or with
others, and whoever opens it.
-/
namespace InodeVolume

/-- Every block that an inode has on `d` it has in the same place on `d'`. -/
structure StillMapped (s : SectorId) (d d' : Image) : Prop where
  size_le : (recordAt d s).size ≤ (recordAt d' s).size
  blockAt {i : Nat} {x : SectorId} :
    (recordAt d s).blockAt d i = some x → (recordAt d' s).blockAt d' i = some x

namespace StillMapped

variable {s : SectorId} {d d' d'' : Image} {f : File}

theorem refl (s : SectorId) (d : Image) : StillMapped s d d := ⟨Nat.le_refl _, id⟩

theorem trans (h : StillMapped s d d') (h' : StillMapped s d' d'') : StillMapped s d d'' :=
  ⟨h.size_le.trans h'.size_le, fun hx => h'.blockAt (h.blockAt hx)⟩

theorem of_agree (hrep : Represents d s f) (hd : Agree (footprint d s) d d') :
    StillMapped s d d' := by
  have hblocks : (recordAt d s).blockAt d' = (recordAt d s).blockAt d :=
    InodeRecord.blockAt_eq_of_pointerAt (InodeRecord.pointerAt_of_agree hrep.stored.linked
      (hd.mono (Finset.subset_insert _ _)))
  refine ⟨by rw [recordAt_of_agree hd], fun hx => ?_⟩
  rwa [recordAt_of_agree hd, hblocks]

end StillMapped

namespace FileStore

variable {st : FileStore} {o : Operation} {s : SectorId} {k : HandleId} {f : OpenFile}

/-- No file gets shorter. -/
theorem size_le_after {x : o.Reply} (hadmits : st.Admits o x) (hs : s ∈ st.live) :
    (st.file s).bytes.size ≤ ((st.after o x).file s).bytes.size := by
  by_cases ht : st.target o = some s
  · cases o with
    | writeAt k offset buffer =>
      obtain ⟨f, hf, rfl⟩ := Option.map_eq_some_iff.1 ht
      obtain ⟨hcount, -⟩ := hadmits f hf
      rw [after_writeAt hf, setBytes, file_setFile_self, File.size_written _ _ hcount, fileOf,
        lengthAfter]
      split <;> omega
    | extend k target =>
      obtain ⟨f, hf, rfl⟩ := Option.map_eq_some_iff.1 ht
      cases x with
      | error e => exact Nat.le_refl _
      | ok id =>
        rw [after_extend hf, setBytes, file_setFile_self, File.extended, Bytes.size_padded]
        exact Nat.le_max_left _ _
    | _ => cases ht
  · rw [file_after hadmits hs ht]

/-- A close after which the inode is still there is not the last one of a removed inode. -/
theorem not_last_of_mem_live (hf : st.opened k = some f)
    (hs : f.inode ∈ (st.after (.close k) ()).live) : ¬ (f.openers = 1 ∧ f.removed = true) := by
  rintro ⟨hlast, hremoved⟩
  have hafter : st.after (.close k) () = _ := closed_eq hf
  rw [hafter, if_pos hlast, if_pos hremoved] at hs
  exact Finset.notMem_erase f.inode st.live hs

end FileStore

namespace Machine

open Program LawfulBlockDevice OpenInode

variable {δ : Type} [BlockDevice δ]

/-- From one machine to another by legal operations, while the inode on `s` is there. -/
inductive Outlives {σ : Type} [Allocator σ] (s : SectorId) (m₀ : Machine δ σ) (st₀ : FileStore) :
    Machine δ σ → FileStore → Prop
  | refl : Outlives s m₀ st₀ m₀ st₀
  | step {m m' : Machine δ σ} {st : FileStore} {o : Operation} {x : o.Reply} :
    Outlives s m₀ st₀ m st → st.Legal o → m.Replies o x m' → s ∈ (st.after o x).live →
      Outlives s m₀ st₀ m' (st.after o x)

/-- How positions of an open inode are translated to sectors. -/
structure Translates (m : Machine δ FreeMap) (st : FileStore) (k : HandleId) (f : OpenFile) :
    Prop where
  isSome_iff : ∃ status m₁, m.Replies (.status k) status m₁ ∧ ∀ position, ∃ x m₂,
    m.Replies (.sectorOf k position) x m₂ ∧ (x.isSome ↔ position ≤ status.size ∧
      position / 512 < max 1 ((status.size + 511) / 512))
  eq_iff {p q : Nat} {x y : SectorId} {m₁ m₂ : Machine δ FreeMap} :
    m.Replies (.sectorOf k p) (some x) m₁ → m.Replies (.sectorOf k q) (some y) m₂ →
      (x = y ↔ p / 512 = q / 512)
  stable {position : Nat} {x : SectorId} {m₁ m' : Machine δ FreeMap} {st' : FileStore}
    {k' : HandleId} {f' : OpenFile} : m.Replies (.sectorOf k position) (some x) m₁ →
    Outlives f.inode m st m' st' → st'.opened k' = some f' → f'.inode = f.inode →
      ∃ m₂, m'.Replies (.sectorOf k' position) (some x) m₂
  extend {target : Nat} {x : SectorId} {status : InodeStatus} {m₁ m' : Machine δ FreeMap} :
    m.Replies (.status k) status m₁ → m.Replies (.extend k target) (.ok x) m' →
      (∃ m₂, m'.Replies (.sectorOf k target) (some x) m₂) ∧
      ∃ status' m₂, m'.Replies (.status k) status' m₂ ∧
        status'.size = max status.size (target + 1)

variable [LawfulBlockDevice δ] {n : Nat} {map : FreeMap} {hm : map.Fits n}
  {m m' m₀ : Machine δ FreeMap} {st st₀ : FileStore} {o : Operation} {s : SectorId}
  {k : HandleId} {f : OpenFile} {total : UInt32}

namespace InUse

theorem sectorOf_iff {σ : Type} [Allocator σ] {l : Lender σ n} {m : Machine δ σ}
    (hu : InUse l m st) (hf : st.opened k = some f) {position : Nat} {x : SectorId} :
    (∃ m', m.Replies (.sectorOf k position) (some x) m') ↔
      position ≤ (recordAt (image m.device) f.inode).size ∧
      (recordAt (image m.device) f.inode).blockAt (image m.device) (position / 512) = some x := by
  obtain ⟨m₁, hx₁⟩ := hu.sectorOf_replies hf position
  constructor
  · rintro ⟨m', hx⟩
    have hreply := (hx.unique hx₁).1
    by_cases hlt : (recordAt (image m.device) f.inode).size < position
    · rw [if_pos hlt] at hreply
      cases hreply
    · rw [if_neg hlt] at hreply
      exact ⟨Nat.le_of_not_lt hlt, hreply.symm⟩
  · rintro ⟨hle, hblock⟩
    rw [if_neg (Nat.not_lt.2 hle), hblock] at hx₁
    exact ⟨m₁, hx₁⟩

/-- An operation on an open inode that it grows by leaves its blocks where they are. -/
theorem blockAt_of_hasGrown (hu : InUse (FreeMap.lender hm) m st) (hf : st.opened k = some f)
    (hg : ∀ origin, HasGrown map origin k f m m → HasGrown map origin k f m m') {i : Nat}
    {x : SectorId} (hx : (recordAt (image m.device) f.inode).blockAt (image m.device) i = some x) :
    (recordAt (image m'.device) f.inode).blockAt (image m'.device) i = some x := by
  obtain ⟨origin, -, hblocks, hlook, hrefl⟩ := HasGrown.refl hu hf
  obtain ⟨ids, hgrown⟩ := (hg origin hrefl).developed.grown
  have hlt := hrefl.developed.lt_dataBlocks hx
  obtain ⟨a, rfl, ha⟩ := InodeRecord.blockAt_eq_some_iff.1 hx
  have hkept := hgrown.kept (.data a) (hblocks ▸ hlt)
  rw [hlook] at hkept
  rw [InodeRecord.blockAt_toIndex]
  exact hkept.trans ha

/-- No operation after which an inode is still there moves one of its blocks. -/
theorem stillMapped (hu : InUse (FreeMap.lender hm) m st) (hs : s ∈ st.live) (hlegal : st.Legal o)
    {x : o.Reply} (hx : m.Replies o x m') (hs' : s ∈ (st.after o x).live) :
    StillMapped s (image m.device) (image m'.device) := by
  obtain ⟨hadmits, hu', hspares⟩ := hu.step hlegal hx
  have hsize : (recordAt (image m.device) s).size ≤ (recordAt (image m'.device) s).size := by
    rw [(hu.represents hs).size, (hu'.represents hs').size]
    exact FileStore.size_le_after hadmits hs
  by_cases hsubject : st.subject o = some s
  · have handle {k : HandleId} (hk : st.inode? k = some s) :
        ∃ f, st.opened k = some f ∧ f.inode = s := Option.map_eq_some_iff.1 hk
    cases o with
    | close k =>
      obtain ⟨f, hf, rfl⟩ := handle hsubject
      rw [hu.close_device_eq hf (FileStore.not_last_of_mem_live hf hs') hx]
      exact .refl _ _
    | writeAt k offset buffer =>
      obtain ⟨f, hf, rfl⟩ := handle hsubject
      exact ⟨hsize, hu.blockAt_of_hasGrown hf fun _ hg => hg.writeAt hu hf hlegal.2 hx⟩
    | extend k target =>
      obtain ⟨f, hf, rfl⟩ := handle hsubject
      exact ⟨hsize, hu.blockAt_of_hasGrown hf fun _ hg => hg.extend hu hf hx⟩
    | _ => cases hsubject
  · exact .of_agree (hu.represents hs) (hspares.mono (FileStore.footprint_subset_spared hs hsubject))

/-- The sector that an extension replies is that of its target. -/
theorem blockAt_extend (hu : InUse (FreeMap.lender hm) m st) (hf : st.opened k = some f)
    {target : Nat} {x : SectorId} (hx : m.Replies (.extend k target) (.ok x) m') :
    (recordAt (image m'.device) f.inode).blockAt (image m'.device) (target / 512) = some x := by
  obtain ⟨origin, -, -, -, hrefl⟩ := HasGrown.refl hu hf
  have hopened : (st.after (.extend k target) (.ok x)).opened k = some f := by
    rw [FileStore.after_extend hf]
    exact hf
  refine (hu.transacts (o := .extend k target) (p := fun f => f.extend target)
    (Q := fun y d' => ∀ id, y.1.1 = .ok id → y.1.2.record.blockAt d' (target / 512) = some id)
    ⟨f, hf⟩ rfl hf hx hopened ((extend_grown target hm hrefl.developed).imp ?_)).2 x rfl
  rintro ⟨⟨e | id, g⟩, map'⟩ d' ⟨hmap, hpost⟩
  · exact ⟨hmap, fun id hid => by cases hid⟩
  · refine ⟨hmap, fun id' hid => ?_⟩
    cases hid
    exact hpost.2.2

end InUse

/-- The blocks of an inode stay where they are as long as it is there. -/
theorem Outlives.stillMapped (hu : InUse (FreeMap.lender hm) m₀ st₀) (hs : s ∈ st₀.live)
    (h : Outlives s m₀ st₀ m st) :
    InUse (FreeMap.lender hm) m st ∧ s ∈ st.live ∧
      StillMapped s (image m₀.device) (image m.device) := by
  induction h with
  | refl => exact ⟨hu, hs, .refl _ _⟩
  | step _ hlegal hx hs' ih =>
    obtain ⟨hu₁, hs₁, hmapped⟩ := ih
    exact ⟨(hu₁.after hlegal hx).2, hs', hmapped.trans (hu₁.stillMapped hs₁ hlegal hx hs')⟩

theorem InUse.sectorOf_eq_iff {σ : Type} [Allocator σ] {l : Lender σ n} {m m₁ m₂ : Machine δ σ}
    (hu : InUse l m st) (hf : st.opened k = some f) (hlive : f.inode ∈ st.live) {p q : Nat}
    {x y : SectorId} (hp : m.Replies (.sectorOf k p) (some x) m₁)
    (hq : m.Replies (.sectorOf k q) (some y) m₂) : x = y ↔ p / 512 = q / 512 := by
  obtain ⟨-, hp⟩ := (hu.sectorOf_iff hf).1 ⟨_, hp⟩
  obtain ⟨-, hq⟩ := (hu.sectorOf_iff hf).1 ⟨_, hq⟩
  constructor
  · rintro rfl
    obtain ⟨a, ha, hpa⟩ := InodeRecord.blockAt_eq_some_iff.1 hp
    obtain ⟨b, hb, hqb⟩ := InodeRecord.blockAt_eq_some_iff.1 hq
    cases (hu.represents hlive).stored.linked.injective (s := .data a) (t := .data b) hpa hqb
    rw [← ha, hb]
  · intro heq
    rw [heq, hq] at hp
    exact (Option.some.inj hp).symm

/-- Every position of an open inode has its sector, and keeps it. -/
theorem OnVolume.translates (h : OnVolume total m st) (hf : st.opened k = some f) :
    Translates m st k f := by
  obtain ⟨hm, hu⟩ := h.inUse
  obtain ⟨a, registered, hc⟩ := hu.consistent
  have hlive := hc.live hf
  exact {
    isSome_iff := by
      obtain ⟨m₁, hstatus⟩ := hu.status_replies hf
      refine ⟨_, m₁, hstatus, fun position => ?_⟩
      obtain ⟨x, m₂, hx, hadmits, -⟩ := hu.attempt_ok (o := .sectorOf k position) ⟨f, hf⟩ rfl
      exact ⟨x, m₂, hx, hadmits f hf⟩
    eq_iff := hu.sectorOf_eq_iff hf hlive
    stable := by
      intro position x m₁ m' st' k' f' hx hrun hf' hinode
      obtain ⟨hle, hblock⟩ := (hu.sectorOf_iff hf).1 ⟨m₁, hx⟩
      obtain ⟨hu', -, hmapped⟩ := hrun.stillMapped hu hlive
      rw [hu'.sectorOf_iff hf', hinode]
      exact ⟨hle.trans hmapped.size_le, hmapped.blockAt hblock⟩
    extend := by
      intro target x status m₁ m' hstatus hx
      obtain ⟨-, hu'⟩ := hu.after (o := .extend k target) ⟨f, hf⟩ hx
      rw [FileStore.after_extend hf] at hu'
      obtain ⟨m₂, hstatus₂⟩ := hu.status_replies hf
      obtain ⟨rfl, -⟩ := hstatus.unique hstatus₂
      obtain ⟨m₃, hstatus₃⟩ := hu'.status_replies hf
      have hsize : ((st.setBytes f.inode ((st.fileOf f).extended target).bytes).file
          f.inode).bytes.size = max (st.fileOf f).bytes.size (target + 1) := by
        rw [FileStore.bytes_setBytes, File.extended, Bytes.size_padded]
      have htarget : target ≤ (recordAt (image m'.device) f.inode).size := by
        rw [(hu'.represents hlive).size, hsize]
        exact (Nat.le_succ target).trans (Nat.le_max_right _ _)
      exact ⟨(hu'.sectorOf_iff hf).2 ⟨htarget, hu.blockAt_extend hf hx⟩, _, m₃, hstatus₃, hsize⟩ }

/-- The root directory of a small volume gets a second block, and its first one stays where it
is. -/
theorem translates_root_directory : ∃ (m m' m₁ m₂ : Machine SectorArray FreeMap) (st : FileStore)
    (k : HandleId) (f : OpenFile) (x y : SectorId), OnVolume 100 m st ∧ st.opened k = some f ∧
      Translates m st k f ∧ m.Replies (.sectorOf k 0) (some x) m₁ ∧
      m.Replies (.extend k 700) (.ok y) m' ∧ m'.Replies (.sectorOf k 0) (some x) m₂ := by
  obtain ⟨m, st, k, f, h, hf, -, hoccupied, hsize⟩ := exists_opened_root
  have hroom : st.HasRoom 100 f (700 / 512) := by
    refine ⟨by decide, ?_⟩
    rw [hoccupied, hsize]
    decide
  obtain ⟨y, m', hy⟩ := (h.extend_iff hf).2 hroom
  have ht := h.translates hf
  obtain ⟨hm, hu⟩ := h.inUse
  obtain ⟨x, m₁, hx, hadmits, -⟩ := hu.attempt_ok (o := .sectorOf k 0) ⟨f, hf⟩ rfl
  have hsome := (hadmits f hf).2 ⟨Nat.zero_le _, dataBlocks_pos _⟩
  obtain ⟨x, rfl⟩ := Option.isSome_iff_exists.1 hsome
  have hrun : Outlives f.inode m st m' (st.after (.extend k 700) (.ok y)) :=
    Outlives.refl.step ⟨f, hf⟩ hy (by
      rw [FileStore.after_extend hf]
      exact h.live hf)
  rw [FileStore.after_extend hf] at hrun
  obtain ⟨m₂, hx'⟩ : ∃ m₂, m'.Replies (.sectorOf k 0) (some x) m₂ := ht.stable hx hrun hf rfl
  exact ⟨m, m', m₁, m₂, st, k, f, x, y, h, hf, ht, hx, hy, hx'⟩

end Machine

end InodeVolume

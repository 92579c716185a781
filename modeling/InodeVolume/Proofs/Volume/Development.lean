import InodeVolume.Proofs.Inode.Enlargement
import InodeVolume.Proofs.Volume.Alike
import InodeVolume.Proofs.Volume.Frugality

/-!
How a machine changes while one inode grows. Nothing but the handle of that inode changes in memory,
and what is on the device follows from where the growth set out, from the number of blocks and from
the bytes in them. So machines that have come from one machine by other calls on the same inode are
alike as soon as the file is the same.
-/
namespace InodeVolume

theorem Registry.setHandle_setHandle {σ : Type} {reg : Registry σ} {h : HandleId} {x y : Handle} :
    (reg.setHandle h x).setHandle h y = reg.setHandle h y := by
  simp [Registry.setHandle]

/-- What is in the sector of a record is its record. -/
theorem sector_eq_of_recordAt {d d' : Image} {s : SectorId} (h : recordAt d' s = recordAt d s) :
    d' s.index = d s.index := by
  rw [recordAt_eq_decode, recordAt_eq_decode] at h
  rw [← InodeRecord.encode_decode (d' s.index), h, InodeRecord.encode_decode]

/-- The inode on the device has grown from where it set out. -/
def GrownOn (m : FreeMap) (o : Outset) (d : Image) : Prop :=
  ∃ ids, Grown m o ids (dataBlocks (recordAt d o.sector).size) (recordAt d o.sector) d

/-- Images of one inode with the same sectors; only what is in its data sectors may differ. -/
structure SameButContents (m : FreeMap) (s : SectorId) (d d' : Image) : Prop where
  record : d' s.index = d s.index
  pointerAt_eq : (recordAt d' s).pointerAt d' = (recordAt d s).pointerAt d
  map (n : Nat) : m.InMap n → d' n = d n
  index {p : IndexSlot} {x : SectorId} :
    (recordAt d s).indexAt d p = some x → d' x.index = d x.index
  other (n : Nat) : (∀ a x, (recordAt d s).dataAt d a = some x → x.index ≠ n) → d' n = d n

namespace GrownOn

variable {m : FreeMap} {o : Outset} {d d' : Image}

section Unique

variable (h : GrownOn m o d) (h' : GrownOn m o d')

include h h'

theorem record_eq (hsize : (recordAt d' o.sector).size = (recordAt d o.sector).size) :
    recordAt d' o.sector = recordAt d o.sector := by
  obtain ⟨ids, hgrown⟩ := h
  obtain ⟨ids', hgrown'⟩ := h'
  rw [hsize] at hgrown'
  exact hgrown.record_eq hgrown' (UInt32.toNat_inj.1 hsize)

/-- Files of one length differ in their data sectors only. -/
theorem sameButContents (hsize : (recordAt d' o.sector).size = (recordAt d o.sector).size) :
    SameButContents m o.sector d d' := by
  have hrecord := h.record_eq h' hsize
  obtain ⟨ids, hgrown⟩ := h
  obtain ⟨ids', hgrown'⟩ := h'
  rw [hsize] at hgrown'
  have hother (n : Nat) := hgrown.image_eq_of_not_data hgrown' (sector_eq_of_recordAt hrecord)
    (n := n)
  refine ⟨sector_eq_of_recordAt hrecord, hgrown.pointerAt_eq hgrown', fun n hn => ?_,
    fun {p x} hx => ?_, fun n hn => hother n hn⟩
  · refine hother n fun a x hx hxn => ?_
    have hmem := hgrown.owned (hgrown.linked.mem (s := .data a) hx)
    exact hgrown.tracks.not_inMap (owned_of_mem hmem) (hxn ▸ hn)
  · refine hother _ fun a y hy hyx => ?_
    obtain rfl := SectorId.index_injective hyx
    cases hgrown.linked.injective (s := .index p) (t := .data a) hx hy

/-- The same file lies on the same image. -/
theorem image_eq (hsize : (recordAt d' o.sector).size = (recordAt d o.sector).size)
    (hbyte : ∀ p, (recordAt d' o.sector).byteAt d' p = (recordAt d o.sector).byteAt d p) :
    d' = d := by
  have hrecord := h.record_eq h' hsize
  obtain ⟨ids, hgrown⟩ := h
  obtain ⟨ids', hgrown'⟩ := h'
  rw [hsize] at hgrown'
  exact hgrown.image_eq hgrown' (sector_eq_of_recordAt hrecord) hbyte

end Unique

/-- An inode that there is has grown from itself. -/
theorem refl {s : SectorId} {f : File} {U : Finset SectorId} (hs : s ∈ U)
    (hrep : Represents d s f) (howned : footprint d s ⊆ U) (htracks : m.Tracks d U) :
    GrownOn m (.ofInode d s U hs) d :=
  ⟨[], .refl hs hrep.stored ((Finset.subset_insert _ _).trans howned) htracks⟩

end GrownOn

namespace Serving

open Program

variable {map : FreeMap} {size : Nat} {hm : map.Fits size} {a : FreeMap}
  {registered : List HandleId} {d : Image} {reg : Registry FreeMap} {st : FileStore}
  {k : HandleId} {f : OpenFile}

/-- What a program on an open inode comes to when the map serves it. -/
theorem transact_served {α : Type} {p : OpenInode → Program Store (α × OpenInode)}
    {A : Nat → Prop} {G : Image → Image → Prop} {Q : (α × OpenInode) × FreeMap → Image → Prop}
    (hc : Serving (FreeMap.lender hm) a registered d reg st) (hf : st.opened k = some f)
    (hp : ((p (f.inodeOn d)).serve map).Ensures A G (fun x d' => x.2 = map ∧ Q x d') d) :
    ((RegistryM.transact k p).run reg).Ensures A G
      (fun x d' => ∃ g, x.2 = reg.setHandle k ⟨⟨0⟩, g⟩ ∧ Q ((x.1, g), map) d') d := by
  rw [RegistryM.transact_run (hc.handle hf) hc.table_eq, ensures_bind]
  refine hp.imp ?_
  rintro ⟨⟨x, g⟩, map'⟩ d' ⟨hmap, hq⟩
  obtain rfl : map' = map := hmap
  exact ⟨g, by rw [Registry.setTable_self hc.table_eq], hq⟩

end Serving

namespace Machine

open Program LawfulBlockDevice OpenInode

variable {δ : Type} [BlockDevice δ] [LawfulBlockDevice δ] {n : Nat} {map : FreeMap}
  {hm : map.Fits n} {m m' m₀ : Machine δ FreeMap} {st st' : FileStore} {o : Operation}
  {k : HandleId} {f : OpenFile} {origin : Outset}

theorem InUse.size_eq {σ : Type} [Allocator σ] {l : Lender σ n} {m m' : Machine δ σ}
    (h : InUse l m st) (hlegal : st.Legal o) {x : o.Reply} (hx : m.Replies o x m') :
    size m'.device = size m.device := by
  obtain ⟨a, registered, hc⟩ := h.consistent
  obtain ⟨journal, hrun⟩ := hx
  have hensures := hc.perform_ensures hlegal (h.refusal_eq_none hlegal ⟨journal, hrun⟩)
  exact (hensures.of_run (w := ⟨m.device, #[]⟩) (fun k hk => Nat.lt_of_lt_of_le hk h.size_le)
    hrun).2

/-- What an operation on an open inode comes to, in memory and on the device. -/
theorem InUse.transacts {p : OpenInode → Program Store (o.Reply × OpenInode)}
    {Q : (o.Reply × OpenInode) × FreeMap → Image → Prop} (h : InUse (FreeMap.lender hm) m st)
    (hlegal : st.Legal o)
    (ho : (o.perform ⟨0⟩ : RegistryM FreeMap o.Reply) = RegistryM.transact k p)
    (hf : st.opened k = some f) {x : o.Reply} (hx : m.Replies o x m')
    (hopened : (st.after o x).opened k = some f)
    (hp : ((p (f.inodeOn (image m.device))).serve map).Ensures anywhere anyWrite
      (fun x d' => x.2 = map ∧ Q x d') (image m.device)) :
    m'.registry = m.registry.setHandle k ⟨⟨0⟩, f.inodeOn (image m'.device)⟩ ∧
      Q ((x, f.inodeOn (image m'.device)), map) (image m'.device) := by
  obtain ⟨a, registered, hc⟩ := h.consistent
  obtain ⟨-, hu'⟩ := h.after hlegal hx
  obtain ⟨a', registered', hc'⟩ := hu'.consistent
  have hserved := hc.transact_served hf hp
  rw [← ho] at hserved
  obtain ⟨-, ⟨g, hreg, hq⟩, -⟩ := h.replies_informed (K := Set.univ) hlegal hx
    (hserved.informed fun _ _ => trivial)
  have hreg : m'.registry = m.registry.setHandle k ⟨⟨0⟩, g⟩ := hreg
  have hhandle := hc'.handle hopened
  rw [hreg, Registry.handle?_setHandle_self (hc.handle hf)] at hhandle
  obtain rfl : g = f.inodeOn (image m'.device) := by
    cases hhandle
    rfl
  exact ⟨hreg, hq⟩

/-- From the machine `m₀` to `m` the inode behind `k` has changed in memory, and on the device it
has grown from where it set out. -/
structure HasGrown (map : FreeMap) (origin : Outset) (k : HandleId) (f : OpenFile)
    (m₀ m : Machine δ FreeMap) : Prop where
  registry_eq : m.registry = m₀.registry.setHandle k ⟨⟨0⟩, f.inodeOn (image m.device)⟩
  size_eq : size m.device = size m₀.device
  developed : Developed map origin (f.inodeOn (image m.device)) (image m.device)

namespace HasGrown

theorem grownOn (h : HasGrown map origin k f m₀ m) : GrownOn map origin (image m.device) := by
  have hsector : f.inode = origin.sector := h.developed.sector
  have hgrown := h.developed.grown
  rw [OpenFile.record_inodeOn, hsector] at hgrown
  exact hgrown

/-- What a handle that has been opened shows is where growth sets out. -/
theorem of_grownOn (hu : InUse (FreeMap.lender hm) m st) (hf : st.opened k = some f)
    (hsector : f.inode = origin.sector) (h : GrownOn map origin (image m.device)) :
    HasGrown map origin k f m m := by
  obtain ⟨a, registered, hc⟩ := hu.consistent
  refine ⟨(Registry.setHandle_self (hc.handle hf)).symm, rfl, hsector, (hc.stored hf).size_le, ?_⟩
  rw [OpenFile.record_inodeOn, hsector]
  exact h

theorem refl (hu : InUse (FreeMap.lender hm) m st) (hf : st.opened k = some f) :
    ∃ origin : Outset, origin.sector = f.inode ∧
      origin.blocks = dataBlocks (recordAt (image m.device) f.inode).size ∧
      origin.look = (recordAt (image m.device) f.inode).pointerAt (image m.device) ∧
      HasGrown map origin k f m m := by
  obtain ⟨a, registered, hc⟩ := hu.consistent
  have hfoot := FileStore.footprint_subset_used (d := image m.device) (hc.live hf)
  exact ⟨_, rfl, rfl, rfl, .of_grownOn hu hf rfl (.refl (hfoot (self_mem_footprint _ _))
    (hc.represents hf) hfoot hc.tracks)⟩

/-- A change of the inode behind the handle. -/
theorem step {p : OpenInode → Program Store (o.Reply × OpenInode)}
    (h : HasGrown map origin k f m₀ m) (hu : InUse (FreeMap.lender hm) m st)
    (hlegal : st.Legal o)
    (ho : (o.perform ⟨0⟩ : RegistryM FreeMap o.Reply) = RegistryM.transact k p)
    (hf : st.opened k = some f) {x : o.Reply} (hx : m.Replies o x m')
    (hopened : (st.after o x).opened k = some f)
    (hp : ((p (f.inodeOn (image m.device))).serve map).Ensures anywhere anyWrite
      (Develops map origin (f.inodeOn (image m.device))) (image m.device)) :
    HasGrown map origin k f m₀ m' := by
  obtain ⟨hreg, -, hdeveloped⟩ := hu.transacts (Q := fun x d' =>
    x.1.2 = { f.inodeOn (image m.device) with record := x.1.2.record } ∧
      Developed map origin x.1.2 d') hlegal ho hf hx hopened hp
  refine ⟨?_, (hu.size_eq hlegal hx).trans h.size_eq, hdeveloped⟩
  rw [hreg, h.registry_eq, Registry.setHandle_setHandle]

theorem extend (h : HasGrown map origin k f m₀ m) (hu : InUse (FreeMap.lender hm) m st)
    (hf : st.opened k = some f) {target : Nat} {x : Except VolumeError SectorId}
    (hx : m.Replies (.extend k target) x m') : HasGrown map origin k f m₀ m' := by
  refine h.step (o := .extend k target) (p := fun f => f.extend target) hu ⟨f, hf⟩ rfl hf hx ?_
    (extend_develops target hm h.developed)
  cases x with
  | error e => exact hf
  | ok id =>
    rw [FileStore.after_extend hf]
    exact hf

theorem writeAt (h : HasGrown map origin k f m₀ m) (hu : InUse (FreeMap.lender hm) m st)
    (hf : st.opened k = some f) {offset count : Nat} {buffer : Bytes} (hoffset : offset < 2 ^ 64)
    (hx : m.Replies (.writeAt k offset buffer) count m') : HasGrown map origin k f m₀ m' := by
  refine h.step (o := .writeAt k offset buffer) (p := fun f => f.writeAt offset buffer) hu
    ⟨⟨f, hf⟩, hoffset⟩ rfl hf hx ?_ (writeAt_develops buffer hm h.developed hoffset)
  rw [FileStore.after_writeAt hf]
  exact hf

/-- Whatever calls they came by, machines with the same file are alike. -/
theorem alike (h : HasGrown map origin k f m₀ m) (h' : HasGrown map origin k f m₀ m')
    {F : File} (hrep : Represents (image m.device) f.inode F)
    (hrep' : Represents (image m'.device) f.inode F) : Alike m m' := by
  have hsector : f.inode = origin.sector := h.developed.sector
  rw [hsector] at hrep hrep'
  have himage := h.grownOn.image_eq h'.grownOn (hrep'.size.trans hrep.size.symm)
    fun p => (hrep'.byte p).trans (hrep.byte p).symm
  refine ⟨?_, h'.size_eq.trans h.size_eq.symm, himage⟩
  rw [h'.registry_eq, h.registry_eq, himage]

end HasGrown

end Machine

end InodeVolume

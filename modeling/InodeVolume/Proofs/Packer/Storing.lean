import InodeVolume.Packer.Pack
import InodeVolume.Proofs.Volume.Frugality
import InodeVolume.Proofs.Volume.Mounting

/-!
Storing a file. An inode is made for it, opened, written and closed; what is free in the image tells
how much of the file is written.
-/
namespace InodeVolume

namespace Packer

open Machine Program LawfulBlockDevice

/-- The sectors that a file of these bytes takes. -/
def need (d : Bytes) : Nat := 1 + totalSectors (dataBlocks d.size)

/-- There is room for a file of these bytes where so many sectors are free. -/
def Fits (free : Nat) (d : Bytes) : Prop := d.size ≤ maxFileSize ∧ need d ≤ free

theorem createRefusal_zero (free : Nat) :
    createRefusal free 0 = if free < 2 then some .noSpace else none := by
  have hone : dataBlocks 0 = 1 := rfl
  have htwo : 1 + totalSectors 1 = 2 := rfl
  rw [createRefusal, hone, htwo, if_neg (by decide : ¬ maxBlocks < 1)]
  split_ifs <;> first | rfl | omega

/-- An inode without bytes has two sectors already. -/
theorem roomFor_size_iff {free : Nat} (d : Bytes) (hfree : 2 ≤ free) :
    RoomFor (free - 2) 1 0 d.size ↔ Fits free d := by
  have hone : totalSectors 1 = 1 := rfl
  by_cases hzero : d.size = 0
  · have hneed : need d = 2 := by
      rw [need, hzero]
      rfl
    rw [Fits, hneed, hzero]
    exact ⟨fun _ => ⟨Nat.zero_le _, hfree⟩, fun _ => Or.inl rfl⟩
  · have hblocks : dataBlocks d.size = (0 + d.size - 1) / 512 + 1 := by
      rw [Nat.zero_add, dataBlocks_eq_succ (Nat.pos_of_ne_zero hzero)]
    have hmono := totalSectors_mono (show 1 ≤ (0 + d.size - 1) / 512 + 1 by omega)
    rw [RoomFor, Fits, need, hblocks, growthCost, Nat.max_eq_right (by omega), hone]
    simp only [maxFileSize, maxBlocks]
    omega

theorem writeCost_size (d : Bytes) : writeCost 1 0 d.size + 2 = need d := by
  have hone : totalSectors 1 = 1 := rfl
  unfold writeCost need
  by_cases hzero : d.size = 0
  · rw [if_pos hzero, hzero]
    rfl
  · have hblocks : dataBlocks d.size = (0 + d.size - 1) / 512 + 1 := by
      rw [Nat.zero_add, dataBlocks_eq_succ (Nat.pos_of_ne_zero hzero)]
    have hmono := totalSectors_mono (show 1 ≤ (0 + d.size - 1) / 512 + 1 by omega)
    rw [if_neg hzero, hblocks, growthCost, Nat.max_eq_right (by omega)]
    omega

/-- All of the bytes are written to an inode that had none. -/
theorem written_blank (kind : InodeKind) (d : Bytes) :
    (File.blank kind 0).written 0 d d.size = ⟨kind, d⟩ := by
  have hkind : ((File.blank kind 0).written 0 d d.size).kind = kind := by
    unfold File.written
    split <;> rfl
  have hbytes : ((File.blank kind 0).written 0 d d.size).bytes = d := by
    refine Bytes.ext_getD ?_ fun p => ?_
    · rw [File.size_written _ _ (Nat.le_refl _), File.size_blank, lengthAfter]
      split_ifs <;> omega
    · rw [File.getD_written _ (Nat.le_refl _), overlaid]
      by_cases hp : 0 ≤ p ∧ p < 0 + d.size
      · rw [if_pos hp, Nat.sub_zero]
      · have hblank : (File.blank kind 0).bytes.size ≤ p := by
          rw [File.size_blank]
          exact Nat.zero_le p
        rw [if_neg hp, Bytes.getD_of_le hblank, Bytes.getD_of_le (by omega)]
  calc (File.blank kind 0).written 0 d d.size
      = ⟨((File.blank kind 0).written 0 d d.size).kind,
          ((File.blank kind 0).written 0 d d.size).bytes⟩ := rfl
    _ = ⟨kind, d⟩ := by rw [hkind, hbytes]

/-- A handle that comes and goes leaves the file that was written through it. -/
theorem setOpened_addFile {st : FileStore} {k : HandleId} {s : SectorId} {f f' : File}
    {g : Option OpenFile} (hk : st.opened k = none) :
    (((st.addFile s f).setOpened k g).setFile s f').setOpened k none = st.addFile s f' := by
  have hopened : Function.update (Function.update st.opened k g) k none = st.opened := by
    rw [Function.update_idem, ← hk, Function.update_eq_self]
  have hfile : Function.update (Function.update st.file s f) s f' = Function.update st.file s f' :=
    Function.update_idem _ _ _
  simp only [FileStore.setOpened, FileStore.setFile, FileStore.addFile, hopened, hfile]

/-- An image on the way: formatted on a blank file, and used since. -/
structure Underway (total : UInt32) (v : Volume) (m : Machine HostFile FreeMap) (st : FileStore) :
    Prop where
  reached : ∃ w, (Volume.format total).run ⟨HostFile.blank (512 * total.toNat), #[]⟩ =
    (.ok (.ok v), w) ∧ Reaches ⟨w.device, .over v.freeMap⟩ (.initial v.root) m st
  length_eq : m.device.length = 512 * total.toNat

/-- Writes before its end leave a file as long as it is. -/
theorem length_replay {f : HostFile} {writes : List (Nat × Sector)}
    (h : ∀ w ∈ writes, w.1 < size f) : (replay f writes).length = f.length := by
  induction writes generalizing f with
  | nil => rfl
  | cons w rest ih =>
    have hw : w.1 < f.length / 512 := h w List.mem_cons_self
    have hlength : (BlockDevice.put f w.1 w.2).length = f.length := by
      change max f.length (512 * w.1 + 512) = f.length
      omega
    refine (ih fun x hx => ?_).trans hlength
    rw [size_put w.2 hw]
    exact h x (List.mem_cons_of_mem w hx)

/-- A program that stays within a file leaves it as long as it is. -/
theorem length_of_run {α : Type} {A : Nat → Prop} {G : Image → Image → Prop}
    {Q : α → Image → Prop} {p : Program Disk α} {w w' : World HostFile} {a : α}
    (h : p.Ensures A G Q (image w.device)) (hA : ∀ n, A n → n < size w.device)
    (hrun : p.run w = (.ok a, w')) : w'.device.length = w.device.length := by
  obtain ⟨b, w₁, writes, hrun₁, -, -, -, hdevice, hwrites, -⟩ := h.run hA
  rw [hrun] at hrun₁
  cases hrun₁
  rw [hdevice, length_replay hwrites]

variable {total : UInt32} {v : Volume} {m m' : Machine HostFile FreeMap} {st : FileStore}
  {o : Operation} {st' : FileStore} {s : SectorId} {k : HandleId} {free : Nat}

theorem size_blank (total : UInt32) :
    total.toNat ≤ size (HostFile.blank (512 * total.toNat)) :=
  Nat.le_of_eq (Nat.mul_div_cancel_left _ (by decide)).symm

theorem length_of_format {x : Except VolumeError Volume} {w : World HostFile}
    (hrun : (Volume.format total).run ⟨HostFile.blank (512 * total.toNat), #[]⟩ = (.ok x, w)) :
    w.device.length = 512 * total.toNat :=
  length_of_run (w := ⟨HostFile.blank (512 * total.toNat), #[]⟩)
    (Volume.format_ensures (Nat.le_refl total.toNat))
    (fun _ hk => Nat.lt_of_lt_of_le hk (size_blank total)) hrun

namespace Underway

theorem onVolume (h : Underway total v m st) : OnVolume total m st := by
  obtain ⟨w, hrun, hreaches⟩ := h.reached
  exact ⟨_, v, w, size_blank total, hrun, hreaches⟩

theorem formatted {w : World HostFile}
    (hrun : (Volume.format total).run ⟨HostFile.blank (512 * total.toNat), #[]⟩ =
      (.ok (.ok v), w)) : Underway total v ⟨w.device, .over v.freeMap⟩ (.initial v.root) :=
  ⟨⟨w, hrun, .refl⟩, length_of_format hrun⟩

theorem step (h : Underway total v m st) (hlegal : st.Legal o) {x : o.Reply}
    (hx : m.Replies o x m') : st.Admits o x ∧ Underway total v m' (st.after o x) := by
  obtain ⟨w, hrun, hreaches⟩ := h.reached
  obtain ⟨hm, hu⟩ := h.onVolume.inUse
  obtain ⟨hadmits, -⟩ := hu.after hlegal hx
  refine ⟨hadmits, ⟨w, hrun, hreaches.step hlegal hx⟩, ?_⟩
  have hrefusal := hu.refusal_eq_none hlegal hx
  obtain ⟨a, registered, hc⟩ := hu.consistent
  obtain ⟨journal, hx⟩ := hx
  exact (length_of_run (w := ⟨m.device, #[]⟩) (hc.perform_ensures hlegal hrefusal)
    (fun k hk => Nat.lt_of_lt_of_le hk hu.size_le) hx).trans h.length_eq

theorem goes_on (h : Underway total v m st) (hlegal : st.Legal o) (hrefusal : st.refusal o = none) :
    ∃ x m', m.Replies o x m' ∧ st.Admits o x ∧ Underway total v m' (st.after o x) := by
  obtain ⟨hm, hu⟩ := h.onVolume.inUse
  obtain ⟨x, m', hx, hadmits, -⟩ := hu.attempt_ok hlegal hrefusal
  exact ⟨x, m', hx, hadmits, (h.step hlegal hx).2⟩

/-- What leaves the files as they are leaves as many sectors free. -/
theorem countsFree_of_occupied (h : Underway total v m st) (h' : Underway total v m' st')
    (hsame : st'.occupied = st.occupied) (hfree : m.CountsFree total free) :
    m'.CountsFree total free := by
  obtain ⟨free', hfree', hsum'⟩ := h'.onVolume.countsFree
  have hsum := h.onVolume.room_eq hfree
  obtain rfl : free' = free := by omega
  exact hfree'

theorem opens (h : Underway total v m st) (hfree : m.CountsFree total free) (hs : s ∈ st.live)
    (hclosed : ∀ k, st.opened k = none) : ∃ k m', m.Replies (.openAt s) (.ok k) m' ∧
      Underway total v m' (st.setOpened k (some ⟨s, 1, false, 0⟩)) ∧ m'.CountsFree total free := by
  obtain ⟨_ | k, m', hx, hadmits, h'⟩ := h.goes_on (o := .openAt s) hs rfl
  · exact hadmits.elim
  rw [FileStore.after_openAt (hclosed k)] at h'
  exact ⟨k, m', hx, h', h.countsFree_of_occupied h' rfl hfree⟩

theorem closes (h : Underway total v m st) (hfree : m.CountsFree total free)
    (hf : st.opened k = some ⟨s, 1, false, 0⟩) : ∃ m', m.Replies (.close k) () m' ∧
      Underway total v m' (st.setOpened k none) ∧ m'.CountsFree total free := by
  obtain ⟨⟨⟩, m', hx, -, h'⟩ := h.goes_on (o := .close k) ⟨_, hf⟩ rfl
  rw [FileStore.after_last_close hf rfl rfl] at h'
  exact ⟨m', hx, h', h.countsFree_of_occupied h' rfl hfree⟩

/-- A file is written as far as there is room. -/
theorem writes (h : Underway total v m st) (hfree : m.CountsFree total free)
    (hf : st.opened k = some ⟨s, 1, false, 0⟩) (hblank : st.file s = .blank .file 0) (d : Bytes) :
    ∃ count m' rest, m.Replies (.writeAt k 0 d) count m' ∧
      Underway total v m' (st.setFile s ((File.blank .file 0).written 0 d count)) ∧
      IsGreatest {n | n ≤ d.size ∧ RoomFor free 1 0 n} count ∧
      m'.CountsFree total rest ∧ rest + writeCost 1 0 count = free := by
  obtain ⟨count, m', rest, hx, hgreatest, hrest, hcost⟩ :=
    h.onVolume.writeAt_exact hfree hf rfl (by decide : 0 < 2 ^ 64) d
  obtain ⟨-, h'⟩ := h.step (o := .writeAt k 0 d) ⟨⟨_, hf⟩, by decide⟩ hx
  have hfile : st.fileOf ⟨s, 1, false, 0⟩ = .blank .file 0 := hblank
  have hafter : st.after (.writeAt k 0 d) count =
      st.setFile s ((File.blank .file 0).written 0 d count) := by
    rw [FileStore.after, hf]
    exact congrArg (fun f => st.setFile s (f.written 0 d count)) hblank
  have hone : dataBlocks 0 = 1 := rfl
  rw [hfile, File.size_blank, hone] at hgreatest hcost
  rw [hafter] at h'
  exact ⟨count, m', rest, hx, h', hgreatest, hrest, hcost⟩

end Underway

/-- Where not even an inode can be made, nothing is. -/
theorem store_refused (h : Underway total v m st) (hfree : m.CountsFree total free) (hlt : free < 2)
    (d : Bytes) : ∃ m', m.Performs (Packing.store ⟨0⟩ d) (.error (.volume .noSpace)) m' ∧
      Underway total v m' st := by
  have hcreate := h.onVolume.create_exact hfree 0 .file
  rw [CreatesExactly, createRefusal_zero, if_pos hlt] at hcreate
  obtain ⟨m', hx, -⟩ := hcreate
  obtain ⟨-, h'⟩ := h.step (o := .create 0 .file) trivial hx
  exact ⟨m', hx.performs.bind (.pure m' _), h'⟩

/-- Otherwise an inode is made, opened, written and closed. -/
theorem store_written (h : Underway total v m st) (hfree : m.CountsFree total free)
    (hle : 2 ≤ free) (hclosed : ∀ k, st.opened k = none) (d : Bytes) :
    ∃ (s : SectorId) (count rest : Nat) (m' : Machine HostFile FreeMap),
      m.Performs (Packing.store ⟨0⟩ d)
        (if count < d.size then .error .imageFull else .ok (s, count)) m' ∧
      Underway total v m' (st.addFile s ((File.blank .file 0).written 0 d count)) ∧
      s ∉ st.live ∧ IsGreatest {k | k ≤ d.size ∧ RoomFor (free - 2) 1 0 k} count ∧
      m'.CountsFree total rest ∧ rest + writeCost 1 0 count + 2 = free := by
  have hcreate := h.onVolume.create_exact hfree 0 .file
  rw [CreatesExactly, createRefusal_zero, if_neg (Nat.not_lt.2 hle)] at hcreate
  obtain ⟨s, m₁, free₁, hx₁, hfree₁, hsum⟩ := hcreate
  have htwo : 1 + totalSectors (dataBlocks 0) = 2 := rfl
  obtain rfl : free₁ = free - 2 := by omega
  obtain ⟨⟨-, hnew, -⟩, h₁⟩ := h.step (o := .create 0 .file) trivial hx₁
  obtain ⟨k, m₂, hx₂, h₂, hfree₂⟩ := h₁.opens hfree₁ (Finset.mem_insert_self s st.live) hclosed
  obtain ⟨count, m₃, rest, hx₃, h₃, hgreatest, hfree₃, hcost⟩ :=
    h₂.writes hfree₂ (FileStore.opened_setOpened_self _ _ _)
      (st.file_setFile_self s (.blank .file 0)) d
  obtain ⟨m₄, hx₄, h₄, hfree₄⟩ := h₃.closes hfree₃ (FileStore.opened_setOpened_self _ _ _)
  have hafter : ((((st.addFile s (.blank .file 0)).setOpened k (some ⟨s, 1, false, 0⟩)).setFile s
      ((File.blank .file 0).written 0 d count)).setOpened k none) =
        st.addFile s ((File.blank .file 0).written 0 d count) := setOpened_addFile (hclosed k)
  refine ⟨s, count, rest, m₄, ?_, hafter ▸ h₄, hnew, hgreatest, hfree₄, by omega⟩
  refine hx₁.performs.bind (hx₂.performs.bind (hx₃.performs.bind (hx₄.performs.bind ?_)))
  by_cases hshort : count < d.size
  · rw [if_pos hshort, if_pos hshort]
    exact .pure m₄ _
  · rw [if_neg hshort, if_neg hshort]
    exact .pure m₄ _

end Packer

end InodeVolume

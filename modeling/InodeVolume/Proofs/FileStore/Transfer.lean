import InodeVolume.Proofs.FileStore.Allocation
import InodeVolume.Proofs.Inode.Transfer

/-!
What reads, writes and extends an open inode. Reading answers from the file and changes nothing; a
change of one inode spares all others and moves on in safe steps.
-/
namespace InodeVolume

variable {σ : Type} {size : Nat}

/-- A step of a change of one inode: it is safe for that inode, and all else stays as it is and
lent. -/
def Advances [Allocator σ] (l : Lender σ size) (st : FileStore) (s : SectorId)
    (w : Nat → Option UInt8) (d d₁ d₂ : Image) : Prop :=
  ∃ F, Disjoint F (st.others d s) ∧
    SafeStep (fun p => (st.file s).bytes.getD p 0) (st.file s).bytes.size w s F d₁ d₂ ∧
    Agree (st.others d s) d d₂ ∧ l.marked d₂ (F ∪ st.others d s)

theorem Advances.agree [Allocator σ] {l : Lender σ size} {st : FileStore} {s : SectorId}
    {w : Nat → Option UInt8} {d d₁ d₂ : Image} (h : Advances l st s w d d₁ d₂) :
    Agree (st.others d s) d d₂ := by
  obtain ⟨_, _, _, hd, _⟩ := h
  exact hd

namespace FileStore

variable {st : FileStore} {s : SectorId} {h : HandleId} {f : OpenFile}

/-- The inode gets other bytes. -/
def setBytes (st : FileStore) (s : SectorId) (b : Bytes) : FileStore :=
  st.setFile s ⟨(st.file s).kind, b⟩

@[simp] theorem setBytes_self : st.setBytes s (st.file s).bytes = st := by
  rw [setBytes, setFile, Function.update_eq_self]

theorem after_writeAt (hf : st.opened h = some f) {offset count : Nat} {buffer : Bytes} :
    st.after (.writeAt h offset buffer) count =
      st.setBytes f.inode ((st.fileOf f).written offset buffer count).bytes := by
  have hkind : ((st.fileOf f).written offset buffer count).kind = (st.file f.inode).kind := by
    unfold File.written
    split <;> rfl
  simp only [after, hf, setBytes, ← hkind]

theorem after_extend (hf : st.opened h = some f) {target : Nat} {id : SectorId} :
    st.after (.extend h target) (.ok id) =
      st.setBytes f.inode ((st.fileOf f).extended target).bytes := by
  simp only [after, hf, setBytes]
  rfl

end FileStore

namespace File

variable (f : File) {offset count : Nat} {buffer : Bytes}

theorem size_written (offset : Nat) (h : count ≤ buffer.size) :
    (f.written offset buffer count).bytes.size = lengthAfter f.bytes.size offset count := by
  rw [written, lengthAfter]
  split
  · rfl
  · exact Bytes.size_overwritten h

theorem getD_written (h : count ≤ buffer.size) (p : Nat) :
    (f.written offset buffer count).bytes.getD p 0 =
      overlaid (fun p => f.bytes.getD p 0) offset buffer count p := by
  rw [written]
  split
  · rename_i hz
    rw [hz, overlaid_zero]
  · exact Bytes.getD_overwritten h p

end File

/-- An inode reads as its file. -/
theorem Represents.bytesFrom_eq {d : Image} {s : SectorId} {f : File} (h : Represents d s f)
    (offset length : Nat) :
    (recordAt d s).bytesFrom d offset (min length ((recordAt d s).size - offset)) =
      f.bytes.extract offset (offset + length) := by
  rw [h.size]
  refine Bytes.ext_getD ?_ fun p => ?_
  · rw [InodeRecord.size_bytesFrom, Array.size_extract]
    omega
  · rw [Bytes.getD_extract, InodeRecord.bytesFrom, Array.getD_eq_getD_getElem?,
      Array.getElem?_ofFn]
    by_cases hp : p < min length (f.bytes.size - offset)
    · rw [dif_pos hp, if_pos (by omega), ← h.byte]
      rfl
    · rw [dif_neg hp]
      split
      · rw [Bytes.getD_of_le (by omega)]
        rfl
      · rfl

/-- The blocks of an inode are those below its end. -/
theorem Represents.sectorOf_isSome {d : Image} {s : SectorId} {f : File} (h : Represents d s f)
    (position : Nat) :
    (if (recordAt d s).size < position then none
      else (recordAt d s).blockAt d (position / 512)).isSome ↔
      position ≤ f.bytes.size ∧ position / 512 < dataBlocks f.bytes.size := by
  rw [h.size]
  by_cases hp : f.bytes.size < position
  · simp [hp]
  · rw [if_neg hp, Option.isSome_iff_exists, and_iff_right (Nat.le_of_not_lt hp), ← h.size]
    constructor
    · rintro ⟨id, hid⟩
      exact h.stored.lt_dataBlocks hid
    · intro hlt
      obtain ⟨id, -, hid⟩ := h.stored.exists_blockAt hlt
      exact ⟨id, hid⟩

namespace Serving

open Program

variable [Allocator σ] {l : Lender σ size} {a : σ} {registered : List HandleId}
  {d : Image} {reg : Registry σ} {st : FileStore} {h : HandleId} {f : OpenFile}
  {A : Nat → Prop} {G : Image → Image → Prop}

theorem inode_ensures {α : Type} {p : OpenInode → Program Disk α}
    {Q : α × Registry σ → Image → Prop} (hc : Serving l a registered d reg st)
    (hf : st.opened h = some f)
    (hp : (p (f.inodeOn d)).Ensures A G (fun x d' => Q (x, reg) d') d) :
    ((do StateT.lift (p (← RegistryM.inode h)) : RegistryM σ α).run reg).Ensures A G Q d := by
  rw [RegistryM.inode_lift_run (hc.handle hf), ensures_bind]
  exact hp

theorem sectorOf_ensures (hc : Serving l a registered d reg st) (hf : st.opened h = some f)
    (position : Nat) :
    (((Operation.sectorOf h position).perform ⟨0⟩).run reg).Ensures (Owned (footprint d f.inode)) G
      (Answered l st (.sectorOf h position)) d := by
  have hrep := hc.represents hf
  have hadmits : st.Admits (.sectorOf h position) (if (recordAt d f.inode).size < position then none
      else (recordAt d f.inode).blockAt d (position / 512)) := by
    intro g hg
    rw [hf, Option.some.injEq] at hg
    subst hg
    exact hrep.sectorOf_isSome position
  refine hc.inode_ensures (p := fun f => f.record.sectorOf position) hf ?_
  rw [OpenFile.record_inodeOn]
  exact InodeRecord.sectorOf_ensures hrep.stored.index_owned ⟨hadmits, a, registered, hc⟩

theorem readAt_ensures (hc : Serving l a registered d reg st) (hf : st.opened h = some f)
    (offset : Nat) {length : Nat} (hlength : length < 2 ^ 63) :
    (((Operation.readAt h offset length).perform ⟨0⟩).run reg).Ensures
      (Owned (footprint d f.inode)) G (Answered l st (.readAt h offset length)) d := by
  have hrep := hc.represents hf
  have hadmits : st.Admits (.readAt h offset length) ((recordAt d f.inode).bytesFrom d offset
      (min length ((recordAt d f.inode).size - offset))) := by
    intro g hg
    rw [hf, Option.some.injEq] at hg
    subst hg
    exact hrep.bytesFrom_eq offset length
  refine hc.inode_ensures (p := fun f => f.readAt offset length) hf ?_
  refine OpenInode.readAt_ensures (hc.stored hf) hlength ?_
  rw [OpenFile.record_inodeOn]
  exact ⟨hadmits, a, registered, hc⟩

theorem status_ensures (hc : Serving l a registered d reg st) (hf : st.opened h = some f) :
    (((Operation.status h).perform ⟨0⟩).run reg).Ensures A G
      (Answered l st (.status h)) d := by
  have hrep := hc.represents hf
  have hadmits : st.Admits (.status h) (f.inodeOn d).status := by
    intro g hg
    rw [hf, Option.some.injEq] at hg
    subst hg
    rw [OpenInode.status, OpenInode.size, OpenFile.record_inodeOn, OpenFile.sector_inodeOn,
      hrep.size, hrep.kind]
  simp only [Operation.perform, StateT.run_bind, RegistryM.inode_run (hc.handle hf), bind_eq,
    done_bind]
  exact ⟨hadmits, a, registered, hc⟩

/-- An open inode has got the bytes `b`, and its copy in memory with it. -/
theorem became (hc : Serving l a registered d reg st) (hf : st.opened h = some f) {b : Bytes}
    {a' : σ} {d' : Image} {F P : Finset SectorId} {g : OpenInode}
    (hb : OpenInode.Becomes (f.inodeOn d) b.size (fun p => b.getD p 0) g d' F P)
    (hF : Disjoint F (st.others d f.inode)) (hl : l.lends a' d' (F ∪ st.others d f.inode))
    (hd : Agree (st.others d f.inode) d d') :
    Serving l a' registered d' ((reg.setTable ⟨0⟩ ⟨a', registered⟩).setHandle h ⟨⟨0⟩, g⟩)
      (st.setBytes f.inode b) := by
  have hstored : Stored d' f.inode g.record P := hb.stored
  have hkind : g.record.kind = (st.file f.inode).kind :=
    hb.kind.trans (by rw [OpenFile.record_inodeOn, (hc.represents hf).kind, FileStore.fileOf])
  have hrep : Represents d' f.inode ⟨(st.file f.inode).kind, b⟩ :=
    hstored.represents hkind hb.size hb.byte
  have hfoot : footprint d' f.inode = F := by
    rw [hstored.footprint_eq, hb.owned, OpenFile.sector_inodeOn]
  have hg : g = f.inodeOn d' := by
    rw [hb.eq, OpenFile.inodeOn, OpenFile.inodeOn, hstored.onDisk]
  have hfile : (st.setBytes f.inode b).file f.inode = ⟨(st.file f.inode).kind, b⟩ :=
    st.file_setFile_self f.inode _
  have hmem : f.inode ∈ (st.setBytes f.inode b).live := hc.live hf
  obtain ⟨hlaid, hothers⟩ := hc.laid.change f.inode d' (st.setBytes f.inode b)
    (fun t ht hne => ⟨ht, st.file_setFile_of_ne hne _⟩)
    (Finset.Subset.refl _) hd fun _ => ⟨by rwa [hfile], by rwa [hfoot]⟩
  rw [hg]
  refine hc.transacted hf hlaid ?_ rfl (fun _ _ => hc.live) fun k e hk he => ?_
  · rw [FileStore.used_eq_union hmem, hfoot, hothers]
    exact hl
  · exact recordAt_of_agree (hd.mono (FileStore.footprint_subset_others (hc.live he)
      fun heq => hk (hc.single he hf heq)))

/-- A program that changes the bytes of an open inode in safe steps. -/
theorem transact_ensures {α : Type} {p : OpenInode → Program Store (α × OpenInode)}
    {w : Nat → Option UInt8} {R : α → Bytes → Prop} {Q : α × Registry σ → Image → Prop}
    (hc : Serving l a registered d reg st) (hf : st.opened h = some f)
    (hp : (p (f.inodeOn d)).Secures
      (SafeStep ((recordAt d f.inode).byteAt d) (recordAt d f.inode).size w f.inode)
      (fun x d' F => ∃ b, R x.1 b ∧ ∃ P,
        OpenInode.Becomes (f.inodeOn d) b.size (fun p => b.getD p 0) x.2 d' F P)
      d (footprint d f.inode))
    (hQ : ∀ x reg' d' b, R x b → Consistent l d' reg' (st.setBytes f.inode b) → Q (x, reg') d') :
    ((RegistryM.transact h p).run reg).Ensures (· < size) (Advances l st f.inode w d) Q d := by
  have hlive := hc.live hf
  have hrep := hc.represents hf
  have hl := hc.lends
  rw [FileStore.used_eq_union hlive] at hl
  have hbyte : (recordAt d f.inode).byteAt d = fun p => (st.file f.inode).bytes.getD p 0 :=
    funext hrep.byte
  have hsize : (recordAt d f.inode).size = (st.file f.inode).bytes.size := hrep.size
  rw [hbyte, hsize] at hp
  rw [RegistryM.transact_run (hc.handle hf) hc.table?_eq, ensures_bind]
  refine (hp.serve l (hc.laid.disjoint_others hlive) hl).mono (fun _ hn => hn)
    (fun _ _ hg => hg) ?_
  rintro ⟨⟨x, g⟩, a'⟩ d' ⟨F, hF, hl', hd, b, hR, P, hb⟩
  exact hQ x _ d' b hR ⟨a', registered, hc.became hf hb hF hl' hd⟩

theorem writeAt_ensures (hc : Serving l a registered d reg st) (hf : st.opened h = some f)
    {offset : Nat} (hoffset : offset < 2 ^ 64) (buffer : Bytes) :
    (((Operation.writeAt h offset buffer).perform ⟨0⟩).run reg).Ensures (· < size)
      (Advances l st f.inode (written offset buffer) d)
      (Answered l st (.writeAt h offset buffer)) d := by
  have hrep := hc.represents hf
  have hp := OpenInode.writeAt_secures buffer (hc.stored hf) hoffset
  rw [OpenFile.record_inodeOn, OpenFile.sector_inodeOn, ← footprint] at hp
  refine hc.transact_ensures (p := fun f => f.writeAt offset buffer)
    (R := fun count b => st.Admits (.writeAt h offset buffer) count ∧
      b = ((st.fileOf f).written offset buffer count).bytes) hf (hp.imp ?_) ?_
  · rintro ⟨count, g⟩ d' F ⟨hcount, hdenied, hshort, P, hb⟩
    dsimp only at hcount hdenied hshort hb ⊢
    have hsize := (st.fileOf f).size_written offset hcount
    have hbyte : overlaid ((recordAt d f.inode).byteAt d) offset buffer count =
        fun p => ((st.fileOf f).written offset buffer count).bytes.getD p 0 := by
      rw [show (recordAt d f.inode).byteAt d = _ from funext hrep.byte]
      exact funext fun p => ((st.fileOf f).getD_written hcount p).symm
    rw [hrep.size, ← hsize, hbyte] at hb
    refine ⟨_, ⟨fun g' hg' => ⟨hcount, ?_, ?_⟩, rfl⟩, P, hb⟩
    · rw [hf, Option.some.injEq] at hg'
      exact hg' ▸ hdenied
    · rw [hf, Option.some.injEq] at hg'
      subst hg'
      rw [← hb.size]
      exact hshort
  · rintro count reg' d' b ⟨hadmits, rfl⟩ hcons
    refine ⟨hadmits, ?_⟩
    rwa [FileStore.after_writeAt hf]

theorem extend_ensures (hc : Serving l a registered d reg st) (hf : st.opened h = some f)
    (target : Nat) :
    (((Operation.extend h target).perform ⟨0⟩).run reg).Ensures (· < size)
      (Advances l st f.inode (fun _ => none) d) (Answered l st (.extend h target)) d := by
  have hrep := hc.represents hf
  have hreached : Reached ((recordAt d f.inode).byteAt d) (recordAt d f.inode).size
      (fun _ => none) d (f.inodeOn d).record := ⟨Nat.le_refl _, fun _ => Or.inl rfl⟩
  have hp := OpenInode.extend_secures target (hc.stored hf) hreached
  rw [OpenFile.record_inodeOn, OpenFile.sector_inodeOn, ← footprint] at hp
  refine hc.transact_ensures (p := fun f => f.extend target)
    (R := fun x b => st.Admits (.extend h target) x ∧
      st.setBytes f.inode b = st.after (.extend h target) x) hf (hp.imp ?_) ?_
  · rintro ⟨e | id, g⟩ d' F hpost
    · obtain ⟨rfl, hnot, rfl, hd⟩ := hpost
      refine ⟨(st.fileOf f).bytes, ⟨fun g hg => ?_, FileStore.setBytes_self⟩,
        (recordAt d f.inode).pointers d, ?_⟩
      · rw [hf, Option.some.injEq] at hg
        subst hg
        rw [← hrep.size]
        exact hnot
      · exact ⟨rfl, rfl, hrep.stored.congr hd, rfl, hrep.size,
          fun p => (hrep.stored.byteAt_eq hd).trans (hrep.byte p)⟩
    · obtain ⟨-, P, hb⟩ := hpost
      have hsize : ((st.fileOf f).extended target).bytes.size =
          max (recordAt d f.inode).size (target + 1) := by
        rw [File.extended, Bytes.size_padded, hrep.size]
      have hbyte : (f.inodeOn d).record.byteAt d =
          fun p => ((st.fileOf f).extended target).bytes.getD p 0 := by
        funext p
        rw [OpenFile.record_inodeOn, hrep.byte, File.extended, Bytes.getD_padded]
      have hle := hb.stored.size_le
      rw [hb.size] at hle
      rw [← hsize, hbyte] at hb
      have htarget : target < maxFileSize := (Nat.le_max_right _ _).trans hle
      exact ⟨_, ⟨htarget, (FileStore.after_extend hf).symm⟩, P, hb⟩
  · rintro x reg' d' b ⟨hadmits, hafter⟩ hcons
    exact ⟨hadmits, hafter ▸ hcons⟩

end Serving

end InodeVolume

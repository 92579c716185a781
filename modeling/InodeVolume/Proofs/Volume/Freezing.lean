import InodeVolume.Proofs.Volume.Atomicity
import InodeVolume.Proofs.Volume.Denial
import InodeVolume.Proofs.Volume.Mounting
import InodeVolume.Proofs.Volume.Room

/-!
Inodes to which writes are denied, such as the images of programs that run. While the denial lasts
nothing changes them, whoever has them open and however other inodes grow. Only an extension does
not ask whether there is a denial, so one that succeeds at the end of such an inode or behind it
makes it longer.
-/
namespace InodeVolume

theorem Bytes.padded_zero (b : Bytes) : b.padded 0 = b := by simp [padded]

namespace FileStore

variable {st : FileStore} {o : Operation} {s : SectorId} {k : HandleId} {f : OpenFile}

/-- Some opener of the inode on `s` denies writes to it. -/
def Denied (st : FileStore) (s : SectorId) : Prop :=
  ∃ k f, st.opened k = some f ∧ f.inode = s ∧ 0 < f.denials

/-- The length that the inode on `s` has at least after an operation that has extended it. -/
def stretch (st : FileStore) (s : SectorId) : (o : Operation) → o.Reply → Nat
  | .extend k target, .ok _ => if st.inode? k = some s then target + 1 else 0
  | _, _ => 0

theorem stretch_of_target (x : o.Reply) (ht : st.target o ≠ some s) : st.stretch s o x = 0 := by
  cases o with
  | extend k target =>
    cases x with
    | error e => rfl
    | ok id => exact if_neg ht
  | _ => rfl

theorem stretch_extend (hf : st.opened k = some f) {target : Nat} {id : SectorId} :
    st.stretch f.inode (.extend k target) (.ok id) = target + 1 := if_pos (inode?_eq hf)

/-- An extension in the first block succeeds, as every file has that block. -/
theorem eq_ok_of_first_block (hf : st.opened k = some f) {target : Nat} (htarget : target < 512)
    {x : Except VolumeError SectorId} (hadmits : st.Admits (.extend k target) x) :
    ∃ id, x = .ok id := by
  cases x with
  | ok id => exact ⟨id, rfl⟩
  | error e =>
    have hpos := dataBlocks_pos (st.fileOf f).bytes.size
    rcases hadmits f hf with ⟨-, hle⟩ | ⟨-, hle⟩
    · omega
    · simp only [maxFileSize] at hle
      omega

/-- An operation does nothing to the file but that an extension adds zeros. -/
theorem file_after_denied {x : o.Reply} (hadmits : st.Admits o x) (hs : s ∈ st.live)
    (hdenials : ∀ k f, st.opened k = some f → f.inode = s → 0 < f.denials) :
    (st.after o x).file s = ⟨(st.file s).kind, (st.file s).bytes.padded (st.stretch s o x)⟩ := by
  by_cases ht : st.target o = some s
  · cases o with
    | writeAt k offset buffer =>
      obtain ⟨f, hf, rfl⟩ := Option.map_eq_some_iff.1 ht
      obtain rfl : x = (0 : Nat) := (hadmits f hf).2.1 (hdenials k f hf rfl)
      rw [after_writeAt hf, File.written, if_pos rfl, fileOf, setBytes_self]
      exact congrArg (File.mk _) (Bytes.padded_zero _).symm
    | extend k target =>
      obtain ⟨f, hf, rfl⟩ := Option.map_eq_some_iff.1 ht
      cases x with
      | error e => exact congrArg (File.mk _) (Bytes.padded_zero _).symm
      | ok id =>
        rw [after_extend hf, setBytes, file_setFile_self, stretch_extend hf]
        rfl
    | _ => cases ht
  · rw [file_after hadmits hs ht, stretch_of_target x ht, Bytes.padded_zero]

end FileStore

namespace Machine

open Program LawfulBlockDevice

variable {δ σ : Type} [BlockDevice δ]

/-- From one machine to another by any legal operations on any inodes, and by opens that fail, while
writes to the inode on `s` stay denied. The number is the greatest length that successful extensions
of that inode have asked for in between. -/
inductive Denying [Allocator σ] (s : SectorId) (m₀ : Machine δ σ) (st₀ : FileStore) :
    Nat → Machine δ σ → FileStore → Prop
  | start : st₀.Denied s → Denying s m₀ st₀ 0 m₀ st₀
  | step {reached : Nat} {m m' : Machine δ σ} {st : FileStore} {o : Operation} {x : o.Reply} :
    Denying s m₀ st₀ reached m st → st.Legal o → m.Replies o x m' → (st.after o x).Denied s →
      Denying s m₀ st₀ (max reached (st.stretch s o x)) m' (st.after o x)
  | rejected {reached : Nat} {m m' : Machine δ σ} {st : FileStore} {t : SectorId}
    {e : VolumeError} : Denying s m₀ st₀ reached m st → m.Replies (.openAt t) (.error e) m' →
      Denying s m₀ st₀ reached m' st

/-- The inode on `s` is on `m` as it was on `m₀`. -/
structure Frozen [LawfulBlockDevice δ] (s : SectorId) (m₀ m : Machine δ σ) : Prop where
  record_eq : recordAt (image m.device) s = recordAt (image m₀.device) s
  agree : Agree (footprint (image m₀.device) s) (image m₀.device) (image m.device)
  /-- Its openers are shown the record of `m₀`. -/
  handle : ∃ k f, m.registry.handle? k = some ⟨⟨0⟩, f⟩ ∧ f.sector = s ∧ 0 < f.denials ∧
    f.record = recordAt (image m₀.device) s

theorem Denying.start_denied [Allocator σ] {s : SectorId} {m₀ m : Machine δ σ}
    {st₀ st : FileStore} {reached : Nat} (h : Denying s m₀ st₀ reached m st) : st₀.Denied s := by
  induction h with
  | start hdenied => exact hdenied
  | step _ _ _ _ ih => exact ih
  | rejected _ _ ih => exact ih

theorem Denying.denied [Allocator σ] {s : SectorId} {m₀ m : Machine δ σ} {st₀ st : FileStore}
    {reached : Nat} (h : Denying s m₀ st₀ reached m st) : st.Denied s := by
  induction h with
  | start hdenied => exact hdenied
  | step _ _ _ hdenied => exact hdenied
  | rejected _ _ ih => exact ih

variable [LawfulBlockDevice δ] {n : Nat} {o : Operation} {s : SectorId} {st st₀ : FileStore}
  {k : HandleId} {f : OpenFile} {total : UInt32} {reached : Nat}

namespace InUse

variable [Allocator σ] {l : Lender σ n} {m m' : Machine δ σ}

/-- There is one handle for an inode, so whoever has it open finds the denial. -/
theorem denials_pos (hu : InUse l m st) (hdenied : st.Denied s) :
    ∀ k f, st.opened k = some f → f.inode = s → 0 < f.denials := by
  intro k f hf hfs
  obtain ⟨k', f', hf', rfl, hpos⟩ := hdenied
  obtain ⟨a, registered, hc⟩ := hu.consistent
  obtain rfl := hc.single hf hf' hfs
  obtain rfl := Option.some.inj (hf.symm.trans hf')
  exact hpos

theorem live_of_denied (hu : InUse l m st) (hdenied : st.Denied s) : s ∈ st.live := by
  obtain ⟨k, f, hf, rfl, -⟩ := hdenied
  obtain ⟨a, registered, hc⟩ := hu.consistent
  exact hc.live hf

/-- The last close ends every denial. -/
theorem not_last_of_denied (hu : InUse l m st) (hf : st.opened k = some f)
    (hdenied : (st.after (.close k) ()).Denied f.inode) : f.openers ≠ 1 := by
  intro hlast
  obtain ⟨k', f', hf', hinode, -⟩ := hdenied
  have hafter : st.after (.close k) () = _ := FileStore.closed_eq hf
  have hopened : (st.setOpened k none).opened k' = some f' := by
    rw [hafter, if_pos hlast] at hf'
    split at hf'
    · exact hf'
    · exact hf'
  obtain ⟨hne, hf'⟩ := FileStore.opened_setOpened_none.1 hopened
  obtain ⟨a, registered, hc⟩ := hu.consistent
  exact hne (hc.single hf' hf hinode)

/-- A write that is denied leaves the machine as it is. -/
theorem eq_of_writeAt_denied (hu : InUse l m st) (hf : st.opened k = some f)
    (hpos : 0 < f.denials) {offset count : Nat} {buffer : Bytes}
    (hx : m.Replies (.writeAt k offset buffer) count m') : m' = m := by
  obtain ⟨a, registered, hc⟩ := hu.consistent
  have hdenied : m.Replies (.writeAt k offset buffer) (0 : Nat) m :=
    ⟨_, attempt_writeAt_denied (hc.handle hf) hc.table?_eq hpos offset buffer⟩
  exact (hx.unique hdenied).2

end InUse

variable {m m' m₀ : Machine δ FreeMap}

namespace OnVolume

/-- An extension that succeeds within the file writes back the record that is there. -/
theorem alike_of_extend_within (h : OnVolume total m st) (hf : st.opened k = some f) {target : Nat}
    {id : SectorId} (hlt : target < (st.file f.inode).bytes.size)
    (hx : m.Replies (.extend k target) (.ok id) m') : Alike m m' := by
  obtain ⟨hm, hu⟩ := h.inUse
  obtain ⟨origin, -, -, -, hg⟩ := HasGrown.refl hu hf
  have hsame : ((st.fileOf f).extended target).bytes = (st.file f.inode).bytes := by
    rw [File.extended, FileStore.fileOf, Bytes.padded, Nat.sub_eq_zero_of_le hlt]
    exact Array.append_empty
  have h' := h.step (o := .extend k target) ⟨f, hf⟩ hx
  rw [FileStore.after_extend hf, hsame, FileStore.setBytes_self] at h'
  exact h.alike_of_hasGrown h' hf hg (hg.extend hu hf hx)

/-- What is done with an inode to which writes are denied and stay denied leaves the device as it
is, but for an extension that moves its end. -/
theorem image_eq_of_denied (h : OnVolume total m st) (hdenied : st.Denied s) (hlegal : st.Legal o)
    {x : o.Reply} (hx : m.Replies o x m') (hdenied' : (st.after o x).Denied s)
    (hsubject : st.subject o = some s) (hle : st.stretch s o x ≤ (st.file s).bytes.size) :
    image m'.device = image m.device := by
  obtain ⟨hm, hu⟩ := h.inUse
  cases o with
  | close k =>
    obtain ⟨f, hf, rfl⟩ := Option.map_eq_some_iff.1 hsubject
    have hmore := hu.not_last_of_denied hf hdenied'
    rw [hu.close_device_eq hf (fun hlast => hmore hlast.1) hx]
  | writeAt k offset buffer =>
    obtain ⟨f, hf, rfl⟩ := Option.map_eq_some_iff.1 hsubject
    rw [hu.eq_of_writeAt_denied hf (hu.denials_pos hdenied k f hf rfl) hx]
  | extend k target =>
    obtain ⟨f, hf, rfl⟩ := Option.map_eq_some_iff.1 hsubject
    cases x with
    | error e => exact (h.alike_of_fails hx trivial).image_eq
    | ok id =>
      rw [FileStore.stretch_extend hf] at hle
      exact (h.alike_of_extend_within hf hle hx).image_eq
  | _ => cases hsubject

/-- One step of a run during which writes are denied. -/
theorem agree_of_denied (h : OnVolume total m st) (hdenied : st.Denied s) (hlegal : st.Legal o)
    {x : o.Reply} (hx : m.Replies o x m') (hdenied' : (st.after o x).Denied s)
    (hle : st.stretch s o x ≤ (st.file s).bytes.size) :
    Agree (footprint (image m.device) s) (image m.device) (image m'.device) := by
  obtain ⟨hm, hu⟩ := h.inUse
  by_cases hsubject : st.subject o = some s
  · rw [h.image_eq_of_denied hdenied hlegal hx hdenied' hsubject hle]
    exact agree_refl _ _
  · obtain ⟨-, -, hspares⟩ := hu.step hlegal hx
    exact hspares.mono (FileStore.footprint_subset_spared (hu.live_of_denied hdenied) hsubject)

end OnVolume

namespace Denying

theorem onVolume (h : OnVolume total m₀ st₀) (hr : Denying s m₀ st₀ reached m st) :
    OnVolume total m st := by
  induction hr with
  | start _ => exact h
  | step _ hlegal hx _ ih => exact ih.step hlegal hx
  | rejected _ hx ih =>
    obtain ⟨_, hu⟩ := ih.inUse
    rwa [hu.eq_of_openAt_error hx]

theorem file_eq (h : OnVolume total m₀ st₀) (hr : Denying s m₀ st₀ reached m st) :
    st.file s = ⟨(st₀.file s).kind, (st₀.file s).bytes.padded reached⟩ := by
  induction hr with
  | start _ => exact congrArg (File.mk _) (Bytes.padded_zero _).symm
  | step hr hlegal hx _ ih =>
    obtain ⟨_, hu⟩ := (hr.onVolume h).inUse
    obtain ⟨hadmits, -⟩ := hu.after hlegal hx
    rw [FileStore.file_after_denied hadmits (hu.live_of_denied hr.denied)
      (hu.denials_pos hr.denied), ih, Bytes.padded_padded]
  | rejected _ _ ih => exact ih

theorem agree (h : OnVolume total m₀ st₀) (hr : Denying s m₀ st₀ reached m st)
    (hle : reached ≤ (st₀.file s).bytes.size) :
    Agree (footprint (image m₀.device) s) (image m₀.device) (image m.device) := by
  obtain ⟨_, hu₀⟩ := h.inUse
  have hs := hu₀.live_of_denied hr.start_denied
  induction hr with
  | start _ => exact agree_refl _ _
  | step hr hlegal hx hdenied ih =>
    obtain ⟨hreached, hstretch⟩ := Nat.max_le.1 hle
    have hagree := ih hreached
    have hfile := hr.file_eq h
    have hstep := (hr.onVolume h).agree_of_denied hr.denied hlegal hx hdenied (by
      rw [hfile, Bytes.size_padded]
      exact hstretch.trans (Nat.le_max_left _ _))
    rw [(hu₀.represents hs).footprint_congr hagree] at hstep
    exact hagree.trans hstep
  | rejected hr hx ih =>
    obtain ⟨_, hu⟩ := (hr.onVolume h).inUse
    rw [hu.eq_of_openAt_error hx]
    exact ih hle

/-- On a volume, while writes to an inode stay denied, whatever is done with it or with others: it
keeps its kind and its bytes, and gets longer only by an extension that moves its end, which adds
zeros. As long as there is none, its record and all of its sectors are as they were. -/
theorem freezes (h : OnVolume total m₀ st₀) (hr : Denying s m₀ st₀ reached m st) :
    (recordAt (image m.device) s).kind = (recordAt (image m₀.device) s).kind ∧
      (recordAt (image m.device) s).size = max (recordAt (image m₀.device) s).size reached ∧
      (∀ p, (recordAt (image m.device) s).byteAt (image m.device) p =
        (recordAt (image m₀.device) s).byteAt (image m₀.device) p) ∧
      (reached ≤ (recordAt (image m₀.device) s).size → Frozen s m₀ m) := by
  obtain ⟨_, hu₀⟩ := h.inUse
  obtain ⟨_, hu⟩ := (hr.onVolume h).inUse
  have hrep₀ := hu₀.represents (hu₀.live_of_denied hr.start_denied)
  have hrep := hu.represents (hu.live_of_denied hr.denied)
  rw [hr.file_eq h] at hrep
  refine ⟨hrep.kind.trans hrep₀.kind.symm, ?_, fun p => ?_, fun hle => ?_⟩
  · rw [hrep.size, Bytes.size_padded, hrep₀.size]
  · rw [hrep.byte, Bytes.getD_padded, hrep₀.byte]
  · rw [hrep₀.size] at hle
    have hagree := hr.agree h hle
    have hrecord := recordAt_of_agree hagree
    obtain ⟨k, f, hf, rfl, hpos⟩ := hr.denied
    obtain ⟨a, registered, hc⟩ := hu.consistent
    exact ⟨hrecord, hagree, k, _, hc.handle hf, rfl, hpos, hrecord⟩

end Denying

/-- The root directory of a small volume holds two bytes, and writes to it are denied. -/
theorem exists_denied_root : ∃ (m : Machine SectorArray FreeMap) (st : FileStore) (k : HandleId)
    (f : OpenFile), OnVolume 100 m st ∧ st.opened k = some f ∧ 0 < f.denials ∧
      (st.file f.inode).bytes.size = 2 := by
  obtain ⟨m, st, k, f, h, hf, hdenials, -, hsize⟩ := exists_opened_root
  obtain ⟨_, hu⟩ := h.inUse
  have hwrite : st.Legal (.writeAt k 0 #[104, 105]) := ⟨⟨f, hf⟩, by decide⟩
  obtain ⟨count, m₁, hcount, hadmits, hu₁⟩ := hu.attempt_ok hwrite rfl
  obtain rfl : count = (2 : Nat) :=
    FileStore.count_eq_of_first_block hf hdenials (by decide) hadmits
  have h₁ := h.step hwrite hcount
  rw [FileStore.after_writeAt hf] at h₁ hu₁
  have hsize₁ : ((st.setBytes f.inode ((st.fileOf f).written 0 #[104, 105] 2).bytes).file
      f.inode).bytes.size = 2 := by
    rw [FileStore.setBytes, FileStore.file_setFile_self, File.size_written _ _ (Nat.le_refl 2),
      hsize]
    rfl
  have hf₁ : (st.setBytes f.inode ((st.fileOf f).written 0 #[104, 105] 2).bytes).opened k =
      some f := hf
  generalize st.setBytes f.inode ((st.fileOf f).written 0 #[104, 105] 2).bytes = st₁ at *
  obtain ⟨a, registered, hc⟩ := hu₁.consistent
  have hrefusal : st₁.refusal (.denyWrite k) = none := by
    rw [FileStore.refusal, hf₁]
    exact if_pos (hdenials ▸ hc.openers_pos hf₁)
  have hdeny : st₁.Legal (.denyWrite k) := ⟨f, hf₁⟩
  obtain ⟨x, m₂, hx, -⟩ := hu₁.attempt_ok hdeny hrefusal
  have h₂ := h₁.step hdeny hx
  rw [FileStore.after, FileStore.modifyOpened_eq hf₁] at h₂
  exact ⟨m₂, _, k, _, h₂, st₁.opened_setOpened_self k _, Nat.succ_pos _, hsize₁⟩

/-- It can be extended in its first block. -/
theorem exists_extended_denied_root (target : Nat) (htarget : target < 512) :
    ∃ (m m' : Machine SectorArray FreeMap) (st st' : FileStore) (s : SectorId), OnVolume 100 m st ∧
      Denying s m st (target + 1) m' st' ∧ (recordAt (image m.device) s).size = 2 ∧
      (recordAt (image m'.device) s).size = max 2 (target + 1) := by
  obtain ⟨m, st, k, f, h, hf, hpos, hsize⟩ := exists_denied_root
  obtain ⟨_, hu⟩ := h.inUse
  have hdenied : st.Denied f.inode := ⟨k, f, hf, rfl, hpos⟩
  have hlegal : st.Legal (.extend k target) := ⟨f, hf⟩
  obtain ⟨x, m', hx, hadmits, hu'⟩ := hu.attempt_ok hlegal rfl
  obtain ⟨id, rfl⟩ := FileStore.eq_ok_of_first_block hf htarget hadmits
  have hstart : Denying f.inode m st 0 m st := .start hdenied
  have hrun := hstart.step hlegal hx (by
    rw [FileStore.after_extend hf]
    exact hdenied)
  rw [FileStore.stretch_extend hf, Nat.zero_max] at hrun
  have hrep := hu.represents (hu.live_of_denied hdenied)
  have hrep' := hu'.represents (hu'.live_of_denied hrun.denied)
  refine ⟨m, m', st, _, f.inode, h, hrun, hrep.size.trans hsize, ?_⟩
  rw [hrep'.size, FileStore.after_extend hf, FileStore.setBytes, FileStore.file_setFile_self,
    File.extended, Bytes.size_padded, FileStore.fileOf, hsize]

/-- An extension within it changes nothing. -/
theorem freezes_denied_root : ∃ (m m' : Machine SectorArray FreeMap) (st st' : FileStore)
    (s : SectorId), OnVolume 100 m st ∧ Denying s m st 2 m' st' ∧
      (recordAt (image m.device) s).size = 2 ∧ Frozen s m m' := by
  obtain ⟨m, m', st, st', s, h, hrun, hsize, -⟩ := exists_extended_denied_root 1 (by decide)
  obtain ⟨-, -, -, hfrozen⟩ := hrun.freezes h
  exact ⟨m, m', st, st', s, h, hrun, hsize, hfrozen (Nat.le_of_eq hsize.symm)⟩

/-- One that goes a byte further makes it longer. -/
theorem extend_lengthens_denied : ∃ (m m' : Machine SectorArray FreeMap) (st st' : FileStore)
    (s : SectorId), OnVolume 100 m st ∧ Denying s m st 3 m' st' ∧
      (recordAt (image m.device) s).size = 2 ∧ (recordAt (image m'.device) s).size = 3 :=
  exists_extended_denied_root 2 (by decide)

end Machine

end InodeVolume

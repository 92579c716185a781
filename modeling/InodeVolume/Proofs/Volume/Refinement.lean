import InodeVolume.Proofs.Volume.Runs

/-!
A volume refines the file store. From any state of any run a legal operation replies what the store
admits, and the device then shows the store after that reply. Only the target of an operation is
changed.
-/
namespace InodeVolume

/-- The device shows the files of a store. -/
structure Shows (d : Image) (st : FileStore) : Prop where
  valid {s : SectorId} : s ∈ st.live → (recordAt d s).isValid = true
  kind {s : SectorId} : s ∈ st.live → (recordAt d s).kind = (st.file s).kind
  size {s : SectorId} : s ∈ st.live → (recordAt d s).size = (st.file s).bytes.size
  byte {s : SectorId} (p : Nat) : s ∈ st.live →
    (recordAt d s).byteAt d p = (st.file s).bytes.getD p 0

theorem Laid.shows {d : Image} {st : FileStore} (h : Laid d st) : Shows d st where
  valid hs := (h.represents hs).stored.valid
  kind hs := (h.represents hs).kind
  size hs := (h.represents hs).size
  byte p hs := (h.represents hs).byte p

namespace FileStore

variable {st : FileStore} {o : Operation} {s : SectorId}

/-- The inode that an operation may change. -/
def target (st : FileStore) : Operation → Option SectorId
  | .writeAt h _ _ => (st.opened h).map OpenFile.inode
  | .extend h _ => (st.opened h).map OpenFile.inode
  | _ => none

theorem ne_of_target {f : OpenFile} {x : Option OpenFile} (hx : x = some f)
    (ht : x.map OpenFile.inode ≠ some s) : s ≠ f.inode := by
  rintro rfl
  exact ht (by rw [hx, Option.map_some])

/-- No other inode is changed. -/
theorem file_after {x : o.Reply} (hadmits : st.Admits o x) (hs : s ∈ st.live)
    (ht : st.target o ≠ some s) : (st.after o x).file s = st.file s := by
  cases o with
  | create length kind =>
    cases x with
    | error e => rfl
    | ok s' =>
      have hne : s ≠ s' := by
        rintro rfl
        exact hadmits.2.1 hs
      exact st.file_setFile_of_ne hne _
  | createAt s' length kind =>
    cases x with
    | error e => rfl
    | ok u =>
      have hne : s ≠ s' := by
        rintro rfl
        exact hadmits.2 hs
      exact st.file_setFile_of_ne hne _
  | openAt s' =>
    cases x with
    | error e => rfl
    | ok h =>
      obtain ⟨f, hafter⟩ := st.exists_reopened_eq h s'
      rw [after, hafter]
      rfl
  | close h =>
    obtain ⟨live, opened, -, hafter⟩ := st.exists_closed_eq h
    rw [after, hafter]
  | writeAt h offset buffer =>
    simp only [after]
    split
    · rename_i f hf
      exact st.file_setFile_of_ne (ne_of_target hf ht) _
    · rfl
  | extend h target =>
    cases x with
    | error e => rfl
    | ok id =>
      simp only [after]
      split
      · rename_i f hf
        exact st.file_setFile_of_ne (ne_of_target hf ht) _
      · rfl
  | allocate => cases x <;> rfl
  | allocateMany count => cases x <;> rfl
  | _ => rfl

/-- A write into the first block takes all bytes, as every file has that block. -/
theorem count_eq_of_first_block {h : HandleId} {f : OpenFile} {offset count : Nat} {buffer : Bytes}
    (hf : st.opened h = some f) (hdenials : f.denials = 0) (hend : offset + buffer.size ≤ 512)
    (hadmits : st.Admits (.writeAt h offset buffer) count) : count = buffer.size := by
  obtain ⟨hle, -, hshort⟩ := hadmits f hf
  by_contra hne
  have hlt : count < buffer.size := Nat.lt_of_le_of_ne hle hne
  have hpos := dataBlocks_pos ((st.fileOf f).written offset buffer count).bytes.size
  have hzero : (offset + count) / 512 = 0 := by omega
  rcases hshort hlt with hdenied | hblocks
  · omega
  · omega

end FileStore

namespace Machine

open LawfulBlockDevice

variable {δ : Type} [BlockDevice δ] [LawfulBlockDevice δ] {total : UInt32} {m : Machine δ FreeMap}
  {st : FileStore} {o : Operation}

/-- Every run on a volume is one of the file store. -/
theorem OnVolume.refines (h : OnVolume total m st) (hlegal : st.Legal o) :
    Shows (image m.device) st ∧ match st.refusal o with
      | some b => m.attempt o = (.error (.breach b), ⟨m.device, #[]⟩)
      | none => ∃ x m', m.Replies o x m' ∧ st.Admits o x ∧ Shows (image m'.device) (st.after o x) ∧
        ∀ s ∈ st.live, st.target o ≠ some s → (st.after o x).file s = st.file s := by
  obtain ⟨hm, hinUse⟩ := h.inUse
  obtain ⟨_, _, hc⟩ := hinUse.consistent
  refine ⟨hc.laid.shows, ?_⟩
  cases hrefusal : st.refusal o with
  | some b => exact hinUse.attempt_refused hlegal hrefusal
  | none =>
    obtain ⟨x, m', hx, hadmits, hinUse'⟩ := hinUse.attempt_ok hlegal hrefusal
    obtain ⟨_, _, hc'⟩ := hinUse'.consistent
    exact ⟨x, m', hx, hadmits, hc'.laid.shows, fun s hs => FileStore.file_after hadmits hs⟩

/-- What is written to the root directory of a new volume is read back. -/
theorem refines_root_directory : ∃ (m m' m'' : Machine SectorArray FreeMap) (st : FileStore)
    (h : HandleId), OnVolume 100 m st ∧ st.Legal (.writeAt h 0 #[104, 105]) ∧
      m.Replies (.writeAt h 0 #[104, 105]) (2 : Nat) m' ∧
      m'.Replies (.readAt h 0 10) (#[104, 105] : Bytes) m'' := by
  have hsize : size (SectorArray.filled 100 7) = 100 := Array.size_replicate
  obtain ⟨m, root, h, hm⟩ := exists_onVolume_opened 100
    (d := SectorArray.filled 100 7) (Nat.le_of_eq hsize.symm) (by decide)
  have hf := (FileStore.initial root).opened_setOpened_self h (some ⟨root, 1, false, 0⟩)
  have hfile : ((FileStore.initial root).setOpened h (some ⟨root, 1, false, 0⟩)).file root =
      .blank .directory 0 := rfl
  generalize (FileStore.initial root).setOpened h (some ⟨root, 1, false, 0⟩) = st at hm hf hfile
  have hwrite : st.Legal (.writeAt h 0 #[104, 105]) := ⟨⟨_, hf⟩, by decide⟩
  obtain ⟨-, count, m', hcount, hadmits, -⟩ := hm.refines hwrite
  obtain rfl : count = (2 : Nat) := FileStore.count_eq_of_first_block hf rfl (by decide) hadmits
  have hm' := hm.step hwrite hcount
  rw [FileStore.after_writeAt hf, FileStore.fileOf, hfile] at hm'
  have hread : (st.setBytes root ((File.blank .directory 0).written 0 #[104, 105] 2).bytes).Legal
      (.readAt h 0 10) := ⟨⟨_, hf⟩, by decide⟩
  obtain ⟨-, bytes, m'', hbytes, hadmits', -⟩ := hm'.refines hread
  have heq := hadmits' _ hf
  rw [FileStore.fileOf, FileStore.setBytes, FileStore.file_setFile_self] at heq
  obtain rfl : bytes = (#[104, 105] : Bytes) := heq
  exact ⟨m, m', m'', st, h, hm, hwrite, hcount, hbytes⟩

end Machine

end InodeVolume

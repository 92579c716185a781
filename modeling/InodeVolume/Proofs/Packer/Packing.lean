import InodeVolume.Proofs.Packer.Storing
import InodeVolume.Proofs.Packer.Tree
import InodeVolume.Proofs.Text.Reading
import Mathlib

/-!
Packing. Files are packed as long as they fit, and what was packed is found in the image again, each
file behind the inode that its line names. The number of free sectors tells which file is the first
that does not fit, and how that is reported.
-/
namespace InodeVolume

namespace Packer

open Machine Program LawfulBlockDevice

variable {total : UInt32} {v : Volume} {m m' : Machine HostFile FreeMap} {st : FileStore}
  {done : List (SectorId × Bytes)} {free : Nat}

section Store

variable {d : Bytes}

/-- The files of `done` are in the image, each behind its inode, and nothing is open. -/
structure Packed (total : UInt32) (v : Volume) (done : List (SectorId × Bytes)) (free : Nat)
    (m : Machine HostFile FreeMap) (st : FileStore) : Prop where
  underway : Underway total v m st
  counts : m.CountsFree total free
  closed (k : HandleId) : st.opened k = none
  nodup : (done.map Prod.fst).Nodup
  live {x : SectorId × Bytes} : x ∈ done → x.1 ∈ st.live
  file {x : SectorId × Bytes} : x ∈ done → st.file x.1 = ⟨.file, x.2⟩

namespace Packed

/-- A further file leaves those alone that are there. -/
theorem beside (h : Packed total v done free m st) {s : SectorId} (hs : s ∉ st.live) (f : File)
    {x : SectorId × Bytes} (hx : x ∈ done) :
    x.1 ∈ (st.addFile s f).live ∧ (st.addFile s f).file x.1 = ⟨.file, x.2⟩ := by
  have hne : x.1 ≠ s := fun he => hs (he ▸ h.live hx)
  exact ⟨Finset.mem_insert_of_mem (h.live hx),
    (st.file_setFile_of_ne hne f).trans (h.file hx)⟩

/-- A file that fits is packed, and takes what it needs. -/
theorem store_fits (h : Packed total v done free m st) (hfits : Fits free d) :
    ∃ s rest m' st', m.Performs (Packing.store ⟨0⟩ d) (.ok (s, d.size)) m' ∧
      Packed total v (done ++ [(s, d)]) rest m' st' ∧ rest + need d = free := by
  have hle : 2 ≤ free := by
    have hpos := writeCost_size d
    exact Nat.le_trans (by omega) hfits.2
  obtain ⟨s, count, rest, m', hx, hunderway, hnew, ⟨⟨hcount, -⟩, hgreatest⟩, hrest, hcost⟩ :=
    store_written h.underway h.counts hle h.closed d
  obtain rfl : count = d.size :=
    Nat.le_antisymm hcount (hgreatest ⟨Nat.le_refl _, (roomFor_size_iff d hle).2 hfits⟩)
  rw [if_neg (Nat.lt_irrefl _)] at hx
  rw [written_blank] at hunderway
  have hsum := writeCost_size d
  refine ⟨s, rest, m', _, hx, ⟨hunderway, hrest, h.closed, ?_, fun hx => ?_, fun hx => ?_⟩, ?_⟩
  · rw [List.map_append, List.map_singleton]
    refine List.Nodup.append h.nodup (List.nodup_singleton s) fun t ht hs => ?_
    obtain ⟨x, hx, rfl⟩ := List.mem_map.1 ht
    have he : x.1 = s := List.mem_singleton.1 hs
    exact hnew (he ▸ h.live hx)
  · rcases List.mem_append.1 hx with hx | hx
    · exact (h.beside hnew _ hx).1
    · obtain rfl := List.mem_singleton.1 hx
      exact Finset.mem_insert_self s st.live
  · rcases List.mem_append.1 hx with hx | hx
    · exact (h.beside hnew _ hx).2
    · obtain rfl := List.mem_singleton.1 hx
      exact st.file_setFile_self s _
  · omega

/-- Any other is reported, by what is free for it, and those before it stay. -/
theorem store_fails (h : Packed total v done free m st) (hfits : ¬ Fits free d) :
    ∃ rest m' st', m.Performs (Packing.store ⟨0⟩ d)
      (.error (if free < 2 then .volume .noSpace else .imageFull)) m' ∧
      Packed total v done rest m' st' := by
  by_cases hfree : free < 2
  · obtain ⟨m', hx, hunderway⟩ := store_refused h.underway h.counts hfree d
    obtain ⟨rest, hrest, -⟩ := hunderway.onVolume.countsFree
    rw [if_pos hfree]
    exact ⟨rest, m', st, hx, hunderway, hrest, h.closed, h.nodup, h.live, h.file⟩
  · have hle := Nat.le_of_not_lt hfree
    obtain ⟨s, count, rest, m', hx, hunderway, hnew, ⟨⟨hcount, hroom⟩, -⟩, hrest, -⟩ :=
      store_written h.underway h.counts hle h.closed d
    have hshort : count < d.size := by
      refine Nat.lt_of_le_of_ne hcount ?_
      rintro rfl
      exact hfits ((roomFor_size_iff d hle).1 hroom)
    rw [if_pos hshort] at hx
    rw [if_neg hfree]
    exact ⟨rest, m', _, hx, hunderway, hrest, h.closed, h.nodup,
      fun hx => (h.beside hnew _ hx).1, fun hx => (h.beside hnew _ hx).2⟩

theorem map_eq (h : Packed total v done free m st) : v.freeMap = Volume.mapOf total := by
  obtain ⟨w, hrun, hreaches⟩ := h.underway.reached
  exact (format_keeps (size_blank total) hrun hreaches).1

end Packed

end Store

/-- The file behind an inode: it is opened, is said to be one of so many bytes, and reads as `d`. -/
structure ReadsBack (m : Machine HostFile FreeMap) (s : SectorId) (d : Bytes) (k : HandleId)
    (m' : Machine HostFile FreeMap) : Prop where
  opens : m.Replies (.openAt s) (.ok k) m'
  status : ∃ m'', m'.Replies (.status k)
    ⟨s.index, .file, d.size, totalSectors (dataBlocks d.size)⟩ m''
  reads (offset : Nat) {length : Nat} : length < 2 ^ 63 →
    ∃ m'', m'.Replies (.readAt k offset length) (d.extract offset (offset + length)) m''

/-- An image can be mounted, and then each of the files is found behind its inode. -/
def Holds (image : HostFile) (files : List (SectorId × Bytes)) : Prop :=
  ∃ v w, Volume.mount.run ⟨image, #[]⟩ = (.ok (.ok v), w) ∧
    ∀ x ∈ files, ∃ k m', ReadsBack ⟨w.device, .over v.freeMap⟩ x.1 x.2 k m'

theorem Packed.holds (h : Packed total v done free m st) : Holds m.device done := by
  obtain ⟨w, hrun, hreaches⟩ := h.underway.reached
  obtain ⟨hmap, hm, hstart, hu⟩ := format_keeps (size_blank total) hrun hreaches
  obtain ⟨a, registered, hc⟩ := hu.consistent
  obtain ⟨⟨rfl, htracks⟩, hsuper⟩ := hc.lends
  have hzero : 0 < total.toNat :=
    Nat.lt_of_lt_of_le (Nat.add_pos_left Nat.one_pos _) hm.reserved_le
  obtain ⟨x, w', hmount, rfl, hdevice, -⟩ :=
    (Volume.mount_ensures (G := fun _ _ => False) hsuper hzero).run_silent
      (w := ⟨m.device, #[]⟩) fun i hi => Nat.lt_of_lt_of_le hi hu.size_le
  refine ⟨_, w', hmount, fun x hx => ?_⟩
  have hrestart := hu.restarted hc.table?_eq
  rw [← show w'.device = m.device from hdevice] at hrestart
  obtain ⟨k, m', f, hopens, -, hinode, hu'⟩ := hrestart.openAt_replies (h.live hx)
  have hf := st.restarted.opened_setOpened_self k (some f)
  have hfile : (st.restarted.setOpened k (some f)).fileOf f = ⟨.file, x.2⟩ := by
    rw [← h.file hx, ← hinode]
    rfl
  refine ⟨k, m', hopens, ?_, fun offset length hlength => ?_⟩
  · obtain ⟨m'', hstatus⟩ := hu'.status_replies hf
    rw [hfile, hinode] at hstatus
    exact ⟨m'', hstatus⟩
  · obtain ⟨m'', hread⟩ := hu'.readAt_replies hf offset hlength
    rw [hfile] at hread
    exact ⟨m'', hread⟩

section Runs

theorem add_eq {d : Bytes} {x : Except PackError (SectorId × Nat)}
    (hx : m.Performs (Packing.store ⟨0⟩ d) x m') :
    Packing.add ⟨m.device, v, ⟨0⟩, m.registry⟩ d = (x, ⟨m'.device, v, ⟨0⟩, m'.registry⟩) := by
  obtain ⟨w, hrun, hdevice⟩ := hx
  simp only [Packing.add, Packing.onImage, hrun, hdevice]

theorem freeCount_eq (h : Packed total v done free m st) :
    Packing.freeCount ⟨m.device, v, ⟨0⟩, m.registry⟩ = .ok free := by
  obtain ⟨w, hrun⟩ := h.counts
  simp only [Packing.freeCount, Packing.onImage, h.map_eq, hrun]

variable {files : List (String × HostFile)}

def totalNeed (files : List (String × HostFile)) : Nat :=
  (files.map fun f => need f.2.toBytes).sum

theorem totalNeed_append (files after : List (String × HostFile)) :
    totalNeed (files ++ after) = totalNeed files + totalNeed after := by
  simp [totalNeed]

theorem totalNeed_singleton (file : String × HostFile) :
    totalNeed [file] = need file.2.toBytes := by
  simp [totalNeed]

/-- The line of a packed file: its name in quotes, its inode and its size in decimal digits. -/
structure Tells (line name : String) (sector : SectorId) (size : Nat) : Prop where
  text : line = Quoted.encode name ++ " -> inode " ++ toString sector.index ++ ", " ++
    toString size ++ " bytes"
  /-- Whatever the name is, it can be told from what follows it. -/
  read : Quoted.read? line = some (name,
    " -> inode " ++ toString sector.index ++ ", " ++ toString size ++ " bytes")

theorem tells_packedLine (name : String) (sector : SectorId) (size : Nat) :
    Tells (packedLine name sector size) name sector size := by
  have htext : packedLine name sector size = Quoted.encode name ++ " -> inode " ++
      toString sector.index ++ ", " ++ toString size ++ " bytes" := rfl
  refine ⟨htext, ?_⟩
  rw [htext]
  simp only [String.append_assoc]
  exact Quoted.read?_encode_append name _

/-- The lines that report packed files, each with its inode. -/
def packedLines (files : List (String × HostFile)) (sectors : List SectorId) : List String :=
  List.zipWith (fun f s => packedLine f.1 s f.2.toBytes.size) files sectors

theorem tells_packedLines (files : List (String × HostFile)) (sectors : List SectorId) :
    List.Forall₂ (fun line x => Tells line x.1.1 x.2 x.1.2.toBytes.size)
      (packedLines files sectors) (files.zip sectors) := by
  rw [packedLines, ← List.map_uncurry_zip_eq_zipWith, List.forall₂_map_left_iff, List.forall₂_same]
  exact fun x _ => tells_packedLine _ _ _

/-- The inodes of files, each with what is to be read from it. -/
def contentsAt (sectors : List SectorId) (files : List (String × HostFile)) :
    List (SectorId × Bytes) :=
  sectors.zip (files.map fun f => f.2.toBytes)

/-- How packing ends when `left` sectors are left for those files of `rest` that follow. -/
def ending (left : Nat) : List (String × HostFile) → List String × Option PackError
  | [] => ([freeLine left], none)
  | _ :: _ => ([], some (if left < 2 then .volume .noSpace else .imageFull))

variable (files) in
/-- As many files are packed as fit one after the other. -/
theorem packAll_spec (h : Packed total v done free m st) : ∃ fitted rest sectors left left' m' st',
    files = fitted ++ rest ∧ sectors.length = fitted.length ∧
    (∀ f ∈ fitted, f.2.toBytes.size ≤ maxFileSize) ∧ left + totalNeed fitted = free ∧
    (∀ f ∈ rest.head?, ¬ Fits left f.2.toBytes) ∧
    packAll ⟨m.device, v, ⟨0⟩, m.registry⟩ (files.map fun f => (f.1, .content f.2)) =
      ⟨packedLines fitted sectors ++ (ending left rest).1, m'.device, (ending left rest).2⟩ ∧
    Packed total v (done ++ contentsAt sectors fitted) left' m' st' := by
  induction files generalizing done free m st with
  | nil =>
    refine ⟨[], [], [], free, free, m, st, rfl, rfl, by simp, rfl, by simp, ?_, ?_⟩
    · rw [List.map_nil, packAll, freeCount_eq h]
      rfl
    · rwa [contentsAt, List.zip_nil_left, List.append_nil]
  | cons file files ih =>
    obtain ⟨name, f⟩ := file
    by_cases hfits : Fits free f.toBytes
    · obtain ⟨s, left₁, m₁, st₁, hx, hpacked, hsum⟩ := h.store_fits hfits
      obtain ⟨fitted, rest, sectors, left, left', m', st', rfl, hlength, hsizes, hneed, hrest, hrun,
        hpacked'⟩ := ih hpacked
      refine ⟨(name, f) :: fitted, rest, s :: sectors, left, left', m', st', rfl,
        congrArg (· + 1) hlength, ?_, ?_, hrest, ?_, ?_⟩
      · intro g hg
        rcases List.mem_cons.1 hg with rfl | hg
        · exact hfits.1
        · exact hsizes g hg
      · rw [totalNeed, List.map_cons, List.sum_cons, ← totalNeed]
        change left + (need f.toBytes + totalNeed fitted) = free
        omega
      · rw [List.map_cons, packAll]
        simp only [Source.read, add_eq hx, hrun]
        rfl
      · rwa [List.append_assoc] at hpacked'
    · obtain ⟨left', m', st', hx, hpacked⟩ := h.store_fails hfits
      refine ⟨[], (name, f) :: files, [], free, left', m', st', rfl, rfl, by simp, rfl, ?_, ?_, ?_⟩
      · intro g hg
        obtain rfl : (name, f) = g := Option.some.inj hg
        exact hfits
      · rw [List.map_cons, packAll]
        simp only [Source.read, add_eq hx]
        rfl
      · rwa [contentsAt, List.zip_nil_left, List.append_nil]

end Runs

/-- The code that a run exits with. -/
def exitCode : Option PackError → Nat
  | none => 0
  | some e => e.exitCode

/-- The regular files among the entries of a directory. -/
def regularFiles (entries : List (String × HostNode)) : List (String × HostFile) :=
  entries.filterMap fun
    | (name, .file f) => some (name, f)
    | (_, .directory _) => none

/-- What a run finds in a tree: a place for the image, and these regular files to be packed. All of
them can be looked up, and none is the image. -/
structure Provides (root : HostNode) (o : Options) (place : Place)
    (files : List (String × HostFile)) : Prop where
  writable : root.writable o.out = .ok place
  listing (image : HostFile) : ∃ directory entries,
    (root.put place (.file image)).listing o.source = .ok (directory, entries) ∧
      regularFiles entries = files ∧ ∀ f ∈ files,
        HostNode.checkPath (HostNode.entryPath o.source f.1) = .ok () ∧ directory ++ [f.1] ≠ place

theorem sources_eq {path : String} {directory image : Place} {entries : List (String × HostNode)}
    (h : ∀ f ∈ regularFiles entries,
      HostNode.checkPath (HostNode.entryPath path f.1) = .ok () ∧ directory ++ [f.1] ≠ image) :
    sources path directory image entries =
      (regularFiles entries).map fun f => (f.1, .content f.2) := by
  rw [sources, regularFiles, List.map_filterMap]
  refine List.filterMap_congr fun e he => ?_
  obtain ⟨name, node⟩ := e
  cases node with
  | directory _ => rfl
  | file f =>
    obtain ⟨hpath, hplace⟩ := h (name, f) (List.mem_filterMap.2 ⟨_, he, rfl⟩)
    simp only [hpath, if_neg hplace, Option.map_some]

/-- How many sectors of an image are there for files. -/
def room (n : Nat) : Nat := n - FreeMap.blocksFor n - 3

/-- An image of `n` sectors has room for all of the files. -/
structure AllFit (n : Nat) (files : List (String × HostFile)) : Prop where
  formats : FreeMap.blocksFor n + 3 ≤ n
  size_le : ∀ f ∈ files, f.2.toBytes.size ≤ maxFileSize
  need_le : totalNeed files ≤ room n

/-- Where all files have room, the first of them have. -/
theorem AllFit.of_append {n : Nat} {files after : List (String × HostFile)}
    (h : AllFit n (files ++ after)) : AllFit n files := by
  have hneed := h.need_le
  rw [totalNeed_append] at hneed
  exact ⟨h.formats, fun f hf => h.size_le f (List.mem_append_left after hf), by omega⟩

/-- The files are in the image, each behind the inode that its line tells. -/
def Reported (files : List (String × HostFile)) (lines : List String) (image : HostFile) : Prop :=
  ∃ sectors : List SectorId, sectors.Nodup ∧ sectors.length = files.length ∧
    List.Forall₂ (fun line x => Tells line x.1.1 x.2 x.1.2.toBytes.size) lines
      (files.zip sectors) ∧
    Holds image (contentsAt sectors files)

/-- A run fails with an error that is printed as `text`. -/
def FailsWith (failure : Option PackError) (e : PackError) (text : String) : Prop :=
  failure = some e ∧ e.label = text

/-- Why a file does not fit when `left` sectors are left. -/
def FailsFor (left : Nat) (failure : Option PackError) : Prop :=
  if left < 2 then FailsWith failure (.volume .noSpace) "NoSpace"
  else FailsWith failure .imageFull "image is full"

/-- What becomes of files on an image of `n` sectors. -/
structure Faithful (n : Nat) (files : List (String × HostFile)) (lines : List String)
    (image : HostFile) (failure : Option PackError) : Prop where
  length_eq : image.length = 512 * n
  exits : exitCode failure = 0 ↔ AllFit n files
  packed : exitCode failure = 0 → ∃ reports, Reported files reports image ∧
    lines = reports ++ [toString (room n - totalNeed files) ++ " sectors free"]
  failed : exitCode failure ≠ 0 → exitCode failure = 1 ∧
    (n < FreeMap.blocksFor n + 3 ∧ lines = [] ∧
        FailsWith failure (.volume .noSpace) "NoSpace" ∨
      ∃ before file after, files = before ++ file :: after ∧ AllFit n before ∧
        ¬ AllFit n (before ++ [file]) ∧ Reported before lines image ∧
        FailsFor (room n - totalNeed before) failure)

variable {files : List (String × HostFile)}

theorem failsFor_ending (left : Nat) :
    FailsFor left (some (if left < 2 then .volume .noSpace else .imageFull)) := by
  rw [FailsFor]
  split_ifs
  · exact ⟨rfl, rfl⟩
  · exact ⟨rfl, rfl⟩

theorem Packed.reported {sectors : List SectorId}
    (h : Packed total v (contentsAt sectors files) free m st)
    (hlength : sectors.length = files.length) :
    Reported files (packedLines files sectors) m.device := by
  have hnodup := h.nodup
  rw [contentsAt, List.map_fst_zip (by rw [List.length_map, hlength])] at hnodup
  exact ⟨sectors, hnodup, hlength, tells_packedLines files sectors, h.holds⟩

/-- A new image has room for files. -/
theorem packed_initial (h : Underway total v m (.initial v.root)) :
    Packed total v [] (room total.toNat) m (.initial v.root) := by
  obtain ⟨free, hfree, hsum⟩ := h.onVolume.countsFree
  have htwo := FileStore.occupied_initial v.root
  obtain rfl : free = room total.toNat := by
    unfold room
    omega
  exact ⟨h, hfree, fun _ => rfl, List.nodup_nil, fun hx => absurd hx List.not_mem_nil,
    fun hx => absurd hx List.not_mem_nil⟩

variable {root : HostNode} {o : Options} {place : Place}

variable (files) in
theorem packAll_faithful (h : Packed total v [] (room total.toNat) m st)
    (hspace : FreeMap.blocksFor total.toNat + 3 ≤ total.toNat) :
    ∃ lines image failure, packAll ⟨m.device, v, ⟨0⟩, m.registry⟩
      (files.map fun f => (f.1, .content f.2)) = ⟨lines, image, failure⟩ ∧
        Faithful total.toNat files lines image failure := by
  obtain ⟨fitted, rest, sectors, left, left', m', st', rfl, hlength, hsizes, hneed, hrest, hrun,
    hpacked⟩ := packAll_spec files h
  have hfitted : AllFit total.toNat fitted := ⟨hspace, hsizes, by omega⟩
  have hreported := hpacked.reported hlength
  refine ⟨_, _, _, hrun, ?_⟩
  cases rest with
  | nil =>
    rw [List.append_nil]
    exact ⟨hpacked.underway.length_eq, iff_of_true rfl hfitted,
      fun _ => ⟨_, hreported, by
        rw [show room total.toNat - totalNeed fitted = left by omega]
        rfl⟩,
      fun hne => absurd rfl hne⟩
  | cons file after =>
    have hleft : room total.toNat - totalNeed fitted = left := by omega
    have hnot : ¬ AllFit total.toNat (fitted ++ [file]) := by
      intro hall
      have hneed' := hall.need_le
      rw [totalNeed_append, totalNeed_singleton] at hneed'
      exact hrest file rfl ⟨hall.size_le file (by simp), by omega⟩
    have hcode : exitCode (ending left (file :: after)).2 = 1 := by
      rw [ending]
      split_ifs <;> rfl
    have hone : (1 : Nat) ≠ 0 := Nat.one_ne_zero
    refine ⟨hpacked.underway.length_eq, ?_, fun hzero => absurd (hcode ▸ hzero) hone, fun _ =>
      ⟨hcode, Or.inr ⟨fitted, file, after, rfl, hfitted, hnot, ?_, ?_⟩⟩⟩
    · rw [hcode]
      have hsplit : fitted ++ file :: after = fitted ++ [file] ++ after := by
        rw [List.append_assoc, List.singleton_append]
      exact iff_of_false hone fun hall => hnot (hsplit ▸ hall).of_append
    · rw [ending, List.append_nil]
      exact hreported
    · rw [hleft, ending]
      exact failsFor_ending left

/-- Formatting a blank file starts the packing, unless it is too small. -/
theorem start_spec (total : UInt32) : ∃ image,
    total.toNat < FreeMap.blocksFor total.toNat + 3 ∧ image.length = 512 * total.toNat ∧
      Packing.start total = (.error (.volume .noSpace), image) ∨
    FreeMap.blocksFor total.toNat + 3 ≤ total.toNat ∧ ∃ v,
      Underway total v ⟨image, .over v.freeMap⟩ (.initial v.root) ∧
      Packing.start total = (.ok ⟨image, v, ⟨0⟩, .over v.freeMap⟩, image) := by
  obtain ⟨x, ⟨d, journal⟩, writes, hformat, hx, -⟩ :=
    (Volume.format_ensures (Nat.le_refl total.toNat)).run
      (w := ⟨HostFile.blank (512 * total.toNat), #[]⟩) fun k hk =>
        Nat.lt_of_lt_of_le hk (size_blank total)
  refine ⟨d, ?_⟩
  cases x with
  | error e =>
    obtain ⟨rfl, hspace⟩ := hx
    refine Or.inl ⟨hspace, length_of_format hformat, ?_⟩
    simp only [Packing.start, Packing.onImage, hformat]
  | ok v =>
    refine Or.inr ⟨hx.1, v, .formatted hformat, ?_⟩
    simp only [Packing.start, Packing.onImage, hformat]
    rfl

namespace Provides

theorem run_unformatted (h : Provides root o place files) {e : PackError} {image : HostFile}
    (hstart : Packing.start o.sectors = (.error e, image)) :
    run root o = (openingLines o ++ [], root.put place (.file image), some e) := by
  simp only [run, h.writable, hstart]

theorem run_formatted (h : Provides root o place files) {p : Packing} {image : HostFile}
    (hstart : Packing.start o.sectors = (.ok p, image)) {outcome : Outcome}
    (hall : packAll p (files.map fun f => (f.1, .content f.2)) = outcome) :
    run root o = (openingLines o ++ outcome.lines, root.put place (.file outcome.image),
      outcome.failure) := by
  obtain ⟨directory, entries, hlisting, rfl, hfiles⟩ := h.listing image
  simp only [run, h.writable, hstart, hlisting, sources_eq hfiles, hall]

end Provides

/-- The packer packs all of the files into the image, where each can be read behind the inode that
its line tells, or it fails; and it does the one or the other by what the files need. The image is
left at the path for the output, and nothing else changes. -/
theorem run_faithful (h : Provides root o place files) : ∃ lines image after failure,
    run root o = (["source=" ++ Quoted.encode o.source, "out=" ++ Quoted.encode o.out] ++ lines,
      after, failure) ∧
      root.Receives o.out place image after ∧
      Faithful o.sectors.toNat files lines image failure := by
  obtain ⟨image, ⟨hspace, hlength, hstart⟩ | ⟨hspace, v, hnew, hstart⟩⟩ := start_spec o.sectors
  · refine ⟨[], image, _, _, h.run_unformatted hstart, HostNode.receives_put h.writable, hlength, ?_,
      ?_, ?_⟩
    · exact iff_of_false Nat.one_ne_zero fun hall => absurd hall.formats (Nat.not_le.2 hspace)
    · exact fun hzero => absurd hzero Nat.one_ne_zero
    · exact fun _ => ⟨rfl, Or.inl ⟨hspace, rfl, rfl, rfl⟩⟩
  · obtain ⟨lines, image', failure, hall, hfaithful⟩ :=
      packAll_faithful files (packed_initial hnew) hspace
    exact ⟨lines, image', _, failure, h.run_formatted hstart hall,
      HostNode.receives_put h.writable, hfaithful⟩

/-- The files of a directory that fill an image of eight sectors. -/
def smallFiles : List (String × HostFile) := [("a", .ofBytes #[104, 105]), ("b", .ofBytes #[])]

/-- They lie below the working directory. -/
def smallTree : HostNode :=
  .directory [("", .directory [("in", .directory (smallFiles.map fun f => (f.1, .file f.2)))])]

theorem run_faithful_smallTree : Provides smallTree ⟨"in", "out", 8⟩ ["", "out"] smallFiles ∧
    ∃ lines image after failure, run smallTree ⟨"in", "out", 8⟩ =
      (["source=" ++ Quoted.encode "in", "out=" ++ Quoted.encode "out"] ++ lines, after, failure) ∧
        smallTree.Receives "out" ["", "out"] image after ∧
        Faithful 8 smallFiles lines image failure ∧ exitCode failure = 0 := by
  have hfiles : ∀ f ∈ smallFiles, HostNode.checkPath (HostNode.entryPath "in" f.1) = .ok () ∧
      ["", "in"] ++ [f.1] ≠ ["", "out"] := by
    intro f hf
    obtain rfl | rfl := List.mem_pair.1 hf
    · exact ⟨by cbv, by decide⟩
    · exact ⟨by cbv, by decide⟩
  have hprovides : Provides smallTree ⟨"in", "out", 8⟩ ["", "out"] smallFiles :=
    ⟨by cbv, fun image => ⟨["", "in"], smallFiles.map fun f => (f.1, .file f.2), by cbv, rfl, hfiles⟩⟩
  have hfit : AllFit 8 smallFiles := ⟨by decide, by decide, by decide⟩
  obtain ⟨lines, image, after, failure, hrun, hreceives, hfaithful⟩ := run_faithful hprovides
  exact ⟨hprovides, lines, image, after, failure, hrun, hreceives, hfaithful,
    hfaithful.exits.2 hfit⟩

end Packer

end InodeVolume

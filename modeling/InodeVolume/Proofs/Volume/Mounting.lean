import InodeVolume.Device.SectorArray
import InodeVolume.Proofs.Volume.Alike
import InodeVolume.Proofs.Volume.Refinement

/-!
What is on the device is all there is. A volume that is mounted in the middle of a run is the one in
use, and every inode looks through it as it does to those who have it open, or did to the last one
who had.
-/
namespace InodeVolume

namespace FileStore

/-- The store as it is found on the device. -/
def restarted (st : FileStore) : FileStore := { st with opened := fun _ => none }

variable {st : FileStore} {o : Operation} {s : SectorId}

theorem target_ne (hon : ¬ st.On s o) : st.target o ≠ some s := by
  cases o with
  | writeAt k offset buffer => exact hon
  | extend k target => exact hon
  | _ => exact Option.some_ne_none s ∘ Eq.symm

end FileStore

namespace Machine

open Program LawfulBlockDevice

variable {δ σ : Type} [BlockDevice δ] [Allocator σ]

/-- Nobody opens the inode on `s`. -/
def Unopened (s : SectorId) (history : History) : Prop :=
  ∀ x, (⟨.openAt s, x⟩ : Σ o : Operation, o.Reply) ∉ history

theorem unopened_nil (s : SectorId) : Unopened s [] := fun _ => List.not_mem_nil

theorem unopened_append {s : SectorId} {history : History} {o : Operation} {x : o.Reply} :
    Unopened s (history ++ [⟨o, x⟩]) ↔ Unopened s history ∧ o ≠ .openAt s := by
  constructor
  · intro h
    refine ⟨fun y hy => h y (List.mem_append_left _ hy), ?_⟩
    rintro rfl
    exact h x (List.mem_append_right _ List.mem_cons_self)
  · rintro ⟨h, hne⟩ y hy
    rcases List.mem_append.1 hy with hy | hy
    · exact h y hy
    · exact hne (congrArg Sigma.fst (List.mem_singleton.1 hy)).symm

/-- Whatever is asked through two handles, each on its machine, the replies are the same. -/
structure LookAlike (m : Machine δ σ) (h : HandleId) (m' : Machine δ σ) (h' : HandleId) : Prop where
  status : ∃ x m₁ m₁', m.Replies (.status h) x m₁ ∧ m'.Replies (.status h') x m₁'
  sectorOf (position : Nat) : ∃ x m₁ m₁', m.Replies (.sectorOf h position) x m₁ ∧
    m'.Replies (.sectorOf h' position) x m₁'
  readAt (offset : Nat) {length : Nat} : length < 2 ^ 63 → ∃ x m₁ m₁',
    m.Replies (.readAt h offset length) x m₁ ∧ m'.Replies (.readAt h' offset length) x m₁'

variable [LawfulBlockDevice δ] {n : Nat} {l : Lender σ n} {m m' m₀ : Machine δ σ}
  {st st' st₀ : FileStore} {o : Operation} {s : SectorId} {h h' k : HandleId} {f f' : OpenFile}
  {history : History}

namespace InUse

theorem status_replies (hu : InUse l m st) (hf : st.opened h = some f) : ∃ m',
    m.Replies (.status h) ⟨f.inode.index, (st.fileOf f).kind, (st.fileOf f).bytes.size,
      totalSectors (dataBlocks (st.fileOf f).bytes.size)⟩ m' := by
  obtain ⟨x, m', hx, hadmits, -⟩ := hu.attempt_ok (o := .status h) ⟨f, hf⟩ rfl
  obtain rfl := hadmits f hf
  exact ⟨m', hx⟩

theorem readAt_replies (hu : InUse l m st) (hf : st.opened h = some f) (offset : Nat)
    {length : Nat} (hlength : length < 2 ^ 63) : ∃ m', m.Replies (.readAt h offset length)
      ((st.fileOf f).bytes.extract offset (offset + length)) m' := by
  obtain ⟨x, m', hx, hadmits, -⟩ :=
    hu.attempt_ok (o := .readAt h offset length) ⟨⟨f, hf⟩, hlength⟩ rfl
  obtain rfl := hadmits f hf
  exact ⟨m', hx⟩

theorem sectorOf_replies (hu : InUse l m st) (hf : st.opened h = some f) (position : Nat) : ∃ m',
    m.Replies (.sectorOf h position) (if (recordAt (image m.device) f.inode).size < position then
      none else (recordAt (image m.device) f.inode).blockAt (image m.device) (position / 512))
      m' := by
  obtain ⟨a, registered, hc⟩ := hu.consistent
  have hstored := (hc.represents hf).stored
  have hsector : (((Operation.sectorOf h position).perform ⟨0⟩).run m.registry).Ensures (· < n)
      (fun _ _ => False) (fun y _ => y.1 = if (recordAt (image m.device) f.inode).size < position
        then none else (recordAt (image m.device) f.inode).blockAt (image m.device)
          (position / 512)) (image m.device) := by
    refine hc.inode_ensures (p := fun f => f.record.sectorOf position) hf ?_
    refine InodeRecord.sectorOf_ensures (fun p id hid => ?_) rfl
    exact hc.lt_of_owned (hc.live hf) (hstored.index_owned p id hid)
  obtain ⟨x, m', hx, hvalue, -⟩ := hu.replies_silent hsector
  obtain rfl : x = _ := hvalue
  exact ⟨m', hx⟩

/-- Two handles of one inode look alike if neither its file nor its sectors have changed. -/
theorem lookAlike (hu : InUse l m st) (hu' : InUse l m' st') (hf : st.opened h = some f)
    (hf' : st'.opened h' = some f') (hinode : f'.inode = f.inode)
    (hfile : st'.file f.inode = st.file f.inode) (hlive : f.inode ∈ st.live)
    (hd : Agree (footprint (image m.device) f.inode) (image m.device) (image m'.device)) :
    LookAlike m h m' h' := by
  have hfileOf : st'.fileOf f' = st.fileOf f := by
    rw [FileStore.fileOf, hinode, hfile, FileStore.fileOf]
  have hrecord := recordAt_of_agree hd
  have hstored := (hu.represents hlive).stored
  have hblocks : (recordAt (image m.device) f.inode).blockAt (image m'.device) =
      (recordAt (image m.device) f.inode).blockAt (image m.device) :=
    InodeRecord.blockAt_eq_of_pointerAt (InodeRecord.pointerAt_of_agree hstored.linked
      (hd.mono (Finset.subset_insert _ _)))
  refine ⟨?_, fun position => ?_, fun offset length hlength => ?_⟩
  · obtain ⟨m₁, hx⟩ := hu.status_replies hf
    obtain ⟨m₂, hx'⟩ := hu'.status_replies hf'
    rw [hfileOf, hinode] at hx'
    exact ⟨_, m₁, m₂, hx, hx'⟩
  · obtain ⟨m₁, hx⟩ := hu.sectorOf_replies hf position
    obtain ⟨m₂, hx'⟩ := hu'.sectorOf_replies hf' position
    rw [hinode, hrecord, hblocks] at hx'
    exact ⟨_, m₁, m₂, hx, hx'⟩
  · obtain ⟨m₁, hx⟩ := hu.readAt_replies hf offset hlength
    obtain ⟨m₂, hx'⟩ := hu'.readAt_replies hf' offset hlength
    rw [hfileOf] at hx'
    exact ⟨_, m₁, m₂, hx, hx'⟩

/-- A live inode is opened, and nothing is written. -/
theorem openAt_replies (hu : InUse l m st) (hs : s ∈ st.live) : ∃ k m' f,
    m.Replies (.openAt s) (.ok k) m' ∧ m'.device = m.device ∧ f.inode = s ∧
      InUse l m' (st.setOpened k (some f)) := by
  obtain ⟨a, registered, hc⟩ := hu.consistent
  obtain ⟨x, m', hx, ⟨⟨hadmits, hcons⟩, -⟩, hdevice⟩ := hu.replies_silent
    (hc.within hs (hc.openAt_ensures hs))
  cases x with
  | error e => exact hadmits.elim
  | ok k =>
    obtain ⟨f, hf, heq⟩ := FileStore.reopened_eq hadmits
    have hafter : st.after (.openAt s) (.ok k) = st.reopened k s := rfl
    rw [hafter, heq] at hcons
    refine ⟨k, m', f, hx, hdevice, hf, hu.size_le.trans_eq (congrArg size hdevice.symm), ?_⟩
    rwa [hdevice]

/-- The machine after a restart: nothing is open. -/
theorem restarted {e : InodeTable σ} (hu : InUse l m st) (ht : m.registry.table? ⟨0⟩ = some e) :
    InUse l ⟨m.device, .over e.allocator⟩ st.restarted := by
  obtain ⟨a, registered, hc⟩ := hu.consistent
  rw [hc.table?_eq, Option.some.injEq] at ht
  subst ht
  exact .over hu.size_le ⟨hc.laid.represents, hc.laid.disjoint, hc.laid.held⟩ hc.lends fun _ => rfl

/-- A close after which the inode stays changes nothing on the device. -/
theorem close_device_eq (hu : InUse l m st) (hf : st.opened h = some f)
    (hstays : ¬ (f.openers = 1 ∧ f.removed = true)) (hx : m.Replies (.close h) () m') :
    m'.device = m.device := by
  obtain ⟨a, registered, hc⟩ := hu.consistent
  obtain ⟨x, m'', hx', -, hdevice⟩ := hu.replies_silent (hc.close_stays_ensures hf hstays)
  obtain ⟨-, rfl⟩ := hx.unique hx'
  exact hdevice

/-- An inode that nobody has open or opens stays as it is. -/
theorem idle (hu : InUse l m₀ st₀) (hlive : s ∈ st₀.live) (hclosed : ¬ st₀.IsOpen s)
    (hf : Follows m₀ st₀ history m st) (hnone : Unopened s history) :
    s ∈ st.live ∧ ¬ st.IsOpen s ∧ st.file s = st₀.file s ∧
      Agree (footprint (image m₀.device) s) (image m₀.device) (image m.device) := by
  induction hf with
  | refl => exact ⟨hlive, hclosed, rfl, agree_refl _ _⟩
  | @step _ _ _ st o x hf hlegal hx ih =>
    obtain ⟨hnone, hne⟩ := unopened_append.1 hnone
    obtain ⟨hlive', hclosed', hfile, hd⟩ := ih hnone
    obtain ⟨hadmits, -, hspares⟩ := (hu.reaches hf.reaches).step hlegal hx
    have hon : ¬ st.On s o := by
      intro hon
      rcases FileStore.eq_or_isOpen_of_on hon with ho | hopen
      · exact hne ho
      · exact hclosed' hopen
    refine ⟨FileStore.mem_live_after hon hlive' x,
      fun hopen => hclosed' (FileStore.isOpen_of_after hopen hne), ?_, hd.trans ?_⟩
    · exact (FileStore.file_after hadmits hlive' (FileStore.target_ne hon)).trans hfile
    · rw [← (hu.represents hlive).footprint_congr hd]
      exact hspares.mono (FileStore.footprint_subset_spared hlive' (FileStore.subject_ne hon))

end InUse

/-- Whoever had the inode on `s` open last on the way from `m₀` to `m` had it through `h` on `m₁`:
has it open there still, or closed it there, and nobody has opened it since. -/
inductive LastOpen (m₀ : Machine δ σ) (st₀ : FileStore) (s : SectorId) (m : Machine δ σ)
    (st : FileStore) : Machine δ σ → HandleId → Prop
  | still {h : HandleId} {f : OpenFile} : st.opened h = some f → f.inode = s →
      LastOpen m₀ st₀ s m st m h
  | closed {m₁ m₂ : Machine δ σ} {st₁ : FileStore} {h : HandleId} {f : OpenFile}
    {history : History} : Reaches m₀ st₀ m₁ st₁ → st₁.opened h = some f → f.inode = s →
    f.openers = 1 → f.removed = false → m₁.Replies (.close h) () m₂ →
    Follows m₂ (st₁.after (.close h) ()) history m st → Unopened s history →
      LastOpen m₀ st₀ s m st m₁ h

/-- On the way from `m₀` to `m`, nobody has had the inode on `s` open since it was made. -/
inductive NeverOpen (m₀ : Machine δ σ) (st₀ : FileStore) (s : SectorId) (m : Machine δ σ)
    (st : FileStore) : Prop
  | initial {history : History} : s ∈ st₀.live → ¬ st₀.IsOpen s → Follows m₀ st₀ history m st →
    Unopened s history → NeverOpen m₀ st₀ s m st
  | created {m₁ m₂ : Machine δ σ} {st₁ : FileStore} {o : Operation} {x : o.Reply}
    {history : History} : Reaches m₀ st₀ m₁ st₁ → s ∉ st₁.live → st₁.Legal o →
    m₁.Replies o x m₂ → s ∈ (st₁.after o x).live → Follows m₂ (st₁.after o x) history m st →
    Unopened s history → NeverOpen m₀ st₀ s m st

/-- Every inode has somebody who had it open last, or was never open. -/
theorem InUse.neverOpen_or_lastOpen (hu : InUse l m₀ st₀) (h : Reaches m₀ st₀ m st)
    (hs : s ∈ st.live) : NeverOpen m₀ st₀ s m st ∨ ∃ m₁ k, LastOpen m₀ st₀ s m st m₁ k := by
  induction h with
  | refl =>
    by_cases hopen : st₀.IsOpen s
    · obtain ⟨k, f, hk, hfs⟩ := hopen
      exact .inr ⟨m₀, k, .still hk hfs⟩
    · exact .inl (.initial hs hopen .refl (unopened_nil _))
  | @step m m' st o x hr hlegal hx ih =>
    obtain ⟨hadmits, -⟩ := (hu.reaches hr).after hlegal hx
    by_cases hopen : (st.after o x).IsOpen s
    · obtain ⟨k, f, hk, hfs⟩ := hopen
      exact .inr ⟨m', k, .still hk hfs⟩
    have hne : o ≠ .openAt s := by
      rintro rfl
      exact hopen (FileStore.isOpen_after_openAt hadmits)
    by_cases hlive : s ∈ st.live
    · rcases ih hlive with hnever | ⟨m₁, k, hlast⟩
      · cases hnever with
        | initial hs₀ hclosed hf hnone =>
          exact .inl (.initial hs₀ hclosed (hf.step hlegal hx) (unopened_append.2 ⟨hnone, hne⟩))
        | created hr₁ hnew hlegal₁ hx₁ hs₁ hf hnone =>
          exact .inl (.created hr₁ hnew hlegal₁ hx₁ hs₁ (hf.step hlegal hx)
            (unopened_append.2 ⟨hnone, hne⟩))
      · cases hlast with
        | @still _ f hk hfs =>
          rcases FileStore.opened_after_or_last x hk with ⟨g, hg, hgf⟩ | ⟨rfl, hlast⟩
          · exact absurd ⟨k, g, hg, hgf.trans hfs⟩ hopen
          · refine .inr ⟨m, k, .closed hr hk hfs hlast ?_ hx .refl (unopened_nil _)⟩
            -- A removed inode would have gone with this close.
            rw [Bool.eq_false_iff]
            intro hremoved
            have hafter : st.after (.close k) x = _ := FileStore.closed_eq hk
            rw [hafter, if_pos hlast, if_pos hremoved, hfs] at hs
            exact Finset.notMem_erase s st.live hs
        | closed hr₁ hk hfs hlast hremoved hx₁ hf hnone =>
          exact .inr ⟨m₁, k, .closed hr₁ hk hfs hlast hremoved hx₁ (hf.step hlegal hx)
            (unopened_append.2 ⟨hnone, hne⟩)⟩
    · exact .inl (.created hr hlive hlegal hx hs .refl (unopened_nil _))

/-- An inode looks as it does or did to whoever had it open last. -/
theorem LastOpen.lookAlike {m₁ m' : Machine δ σ} (hu : InUse l m₀ st₀) (hr : Reaches m₀ st₀ m st)
    (hlast : LastOpen m₀ st₀ s m st m₁ h) (hu' : InUse l m' st')
    (hf' : st'.opened k = some f') (hinode : f'.inode = s)
    (hfile : st'.file = st.file) (hdevice : m'.device = m.device) : LookAlike m₁ h m' k := by
  cases hlast with
  | @still _ f hf hfs =>
    subst hfs
    obtain ⟨a, registered, hc⟩ := (hu.reaches hr).consistent
    refine (hu.reaches hr).lookAlike hu' hf hf' hinode (congrFun hfile _) (hc.live hf) ?_
    rw [hdevice]
    exact agree_refl _ _
  | @closed _ m₂ st₁ _ f history hr₁ hf hfs hopeners hremoved hx hfollows hnone =>
    subst hfs
    have hu₁ := hu.reaches hr₁
    have hu₂ := (hu₁.after (o := .close h) ⟨f, hf⟩ hx).2
    obtain ⟨a, registered, hc⟩ := hu₁.consistent
    have hlive := hc.live hf
    have hstays : ¬ (f.openers = 1 ∧ f.removed = true) := by
      rw [hremoved]
      exact fun hboth => Bool.false_ne_true hboth.2
    rw [FileStore.after_last_close hf hopeners hremoved] at hu₂ hfollows
    have hclosed : ¬ (st₁.setOpened h none).IsOpen f.inode := by
      rintro ⟨j, g, hg, hgf⟩
      obtain ⟨hne, hg⟩ := FileStore.opened_setOpened_none.1 hg
      exact hne (hc.single hg hf hgf)
    obtain ⟨-, -, hfile₂, hd⟩ := hu₂.idle hlive hclosed hfollows hnone
    rw [hu₁.close_device_eq hf hstays hx] at hd
    refine hu₁.lookAlike hu' hf hf' hinode ?_ hlive (hdevice ▸ hd)
    rw [hfile, hfile₂]
    rfl

variable {total : UInt32} {d : δ} {v : Volume} {w : World δ}

/-- The super block of a volume stays where formatting has put it. -/
theorem format_keeps {m : Machine δ FreeMap} (hsize : total.toNat ≤ size d)
    (hformat : (Volume.format total).run ⟨d, #[]⟩ = (.ok (.ok v), w))
    (h : Reaches ⟨w.device, .over v.freeMap⟩ (.initial v.root) m st) :
    v.freeMap = Volume.mapOf total ∧ ∃ hm : (Volume.mapOf total).Fits total.toNat,
      InUse (FreeMap.lenderKeeping hm (Volume.superSector total v.root))
        ⟨w.device, .over v.freeMap⟩ (.initial v.root) ∧
      InUse (FreeMap.lenderKeeping hm (Volume.superSector total v.root)) m st := by
  obtain ⟨⟨hspace, hmap, hlaid, htracks, hsuper⟩, hdevice⟩ :=
    (Volume.format_ensures (Nat.le_refl total.toNat)).of_run (w := ⟨d, #[]⟩)
      (fun k hk => Nat.lt_of_lt_of_le hk hsize) hformat
  have hm := Volume.fits_mapOf (Nat.le_refl _) hspace
  have hstart : InUse (FreeMap.lenderKeeping hm (Volume.superSector total v.root))
      ⟨w.device, .over v.freeMap⟩ (.initial v.root) :=
    .over (hsize.trans_eq hdevice.symm) hlaid ⟨⟨hmap, htracks⟩, hsuper⟩ fun _ => rfl
  exact ⟨hmap, hm, hstart, hstart.reaches h⟩

/-- In every state of every run on a volume: mounting the device gives the very volume that is in
use, with as many sectors free, and writes nothing. Every inode can be opened through the mounted
volume, and looks there as it does to somebody who opens it on the one in use, and as it does, or
did, to whoever had it open last. -/
theorem Reaches.persists {m : Machine δ FreeMap} (hsize : total.toNat ≤ size d)
    (hformat : (Volume.format total).run ⟨d, #[]⟩ = (.ok (.ok v), w))
    (h : Reaches ⟨w.device, .over v.freeMap⟩ (.initial v.root) m st) :
    (∃ w', Volume.mount.run ⟨m.device, #[]⟩ = (.ok (.ok v), w') ∧ w'.device = m.device ∧
      w'.writes = []) ∧
    (∃ registered, m.registry.table? ⟨0⟩ = some ⟨v.freeMap, registered⟩) ∧
    (∃ w', v.freeMap.freeCount.run ⟨m.device, #[]⟩ = (.ok (v.freeMap.capacity -
      (v.freeMap.reserved + (st.used (image m.device)).card)), w')) ∧
    ∀ s ∈ st.live, ∃ k m', Machine.Replies ⟨m.device, .over v.freeMap⟩ (.openAt s) (.ok k) m' ∧
      (∃ j m₁, m.Replies (.openAt s) (.ok j) m₁ ∧ LookAlike m₁ j m' k) ∧
      (NeverOpen ⟨w.device, .over v.freeMap⟩ (.initial v.root) s m st ∨
        ∃ m₁ h, LastOpen ⟨w.device, .over v.freeMap⟩ (.initial v.root) s m st m₁ h) ∧
      ∀ m₁ h, LastOpen ⟨w.device, .over v.freeMap⟩ (.initial v.root) s m st m₁ h →
        LookAlike m₁ h m' k := by
  obtain ⟨hmap, hm, hstart, hu⟩ := format_keeps hsize hformat h
  obtain ⟨a, registered, hc⟩ := hu.consistent
  obtain ⟨⟨rfl, htracks⟩, hsuper⟩ := hc.lends
  have ht : m.registry.table? ⟨0⟩ = some ⟨v.freeMap, registered⟩ := hmap ▸ hc.table?_eq
  have hlt (i : Nat) (hi : i < total.toNat) : i < size m.device := Nat.lt_of_lt_of_le hi hu.size_le
  refine ⟨?_, ⟨registered, ht⟩, ?_, fun s hs => ?_⟩
  · have hzero : 0 < total.toNat :=
      Nat.lt_of_lt_of_le (Nat.add_pos_left Nat.one_pos _) hm.reserved_le
    obtain ⟨x, w', hrun, hx, hdevice, hwrites⟩ :=
      (Volume.mount_ensures (G := fun _ _ => False) hsuper hzero).run_silent
        (w := ⟨m.device, #[]⟩) hlt
    rw [hx, ← hmap] at hrun
    exact ⟨w', hrun, hdevice, hwrites⟩
  · obtain ⟨free, w', hrun, hfree, -⟩ :=
      (FreeMap.freeCount_ensures (G := fun _ _ => False) (Q := fun x _ => x = _) hm htracks
        (fun _ hi => hi) rfl).run_silent (w := ⟨m.device, #[]⟩) hlt
    rw [hmap, hrun, hfree]
    exact ⟨w', rfl⟩
  · obtain ⟨k, m', f, hx, hdevice, hfs, hu'⟩ := (hu.restarted ht).openAt_replies hs
    obtain ⟨j, m₁, g, hx₁, hdevice₁, hgs, hu₁⟩ := hu.openAt_replies hs
    have hf := st.restarted.opened_setOpened_self k (some f)
    refine ⟨k, m', hx, ⟨j, m₁, hx₁, ?_⟩, hstart.neverOpen_or_lastOpen h hs, fun m₂ i hlast => ?_⟩
    · subst hgs
      refine hu₁.lookAlike hu' (st.opened_setOpened_self j _) hf hfs rfl hs ?_
      rw [hdevice, hdevice₁]
      exact agree_refl _ _
    · exact hlast.lookAlike hstart h hu' hf hfs rfl hdevice

/-- Something is written to the root directory, which is closed and found again by mounting. -/
theorem persists_root_directory : ∃ (m m₁ m₂ : Machine SectorArray FreeMap) (v : Volume)
    (h k : HandleId) (count : Nat) (w : World SectorArray),
    m.Replies (.writeAt h 0 #[104, 105]) count m₁ ∧ m₁.Replies (.close h) () m₂ ∧
      Volume.mount.run ⟨m₂.device, #[]⟩ = (.ok (.ok v), w) ∧
      ∃ m', Machine.Replies ⟨m₂.device, .over v.freeMap⟩ (.openAt v.root) (.ok k) m' ∧
        LookAlike m₁ h m' k := by
  have hsize : size (SectorArray.filled 100 7) = 100 := Array.size_replicate
  have hle : (100 : UInt32).toNat ≤ size (SectorArray.filled 100 7) := Nat.le_of_eq hsize.symm
  obtain ⟨v, w, hrun, _, hu⟩ := exists_format 100 hle (by decide)
  have hroot : v.root ∈ (FileStore.initial v.root).live := Finset.mem_singleton_self v.root
  obtain ⟨x, m, hx, hadmits, hu'⟩ := hu.attempt_ok (o := .openAt v.root) hroot rfl
  cases x with
  | error e => exact hadmits.elim
  | ok h =>
    have hr := Reaches.refl.step (o := .openAt v.root) hroot hx
    obtain ⟨st, hst⟩ : ∃ st, st = (FileStore.initial v.root).after (.openAt v.root) (.ok h) :=
      ⟨_, rfl⟩
    have hf : st.opened h = some ⟨v.root, 1, false, 0⟩ := by
      rw [hst]
      exact (FileStore.initial v.root).opened_setOpened_self h _
    have hlive : v.root ∈ st.live := by
      rw [hst]
      exact hroot
    rw [← hst] at hr hu'
    have hwrite : st.Legal (.writeAt h 0 #[104, 105]) := ⟨⟨_, hf⟩, by decide⟩
    obtain ⟨count, m₁, hx₁, -, hu₁⟩ := hu'.attempt_ok hwrite rfl
    have hr₁ := hr.step hwrite hx₁
    obtain ⟨st₁, hst₁⟩ : ∃ st₁, st₁ = st.after (.writeAt h 0 #[104, 105]) count := ⟨_, rfl⟩
    have hwritten := hst₁.trans (FileStore.after_writeAt hf)
    have hf₁ : st₁.opened h = some ⟨v.root, 1, false, 0⟩ := by
      rw [hwritten]
      exact hf
    have hlive₁ : v.root ∈ st₁.live := by
      rw [hwritten]
      exact hlive
    rw [← hst₁] at hr₁ hu₁
    obtain ⟨⟨⟩, m₂, hx₂, -⟩ := hu₁.attempt_ok (o := .close h) ⟨_, hf₁⟩ rfl
    have hr₂ := hr₁.step (o := .close h) ⟨_, hf₁⟩ hx₂
    have hlast := LastOpen.closed hr₁ hf₁ rfl rfl rfl hx₂ .refl (unopened_nil _)
    obtain ⟨⟨w', hmount, -⟩, -, -, hlooks⟩ := Reaches.persists hle hrun hr₂
    rw [FileStore.after_last_close hf₁ rfl rfl] at hlooks hlast
    obtain ⟨k, m', hx', -, -, hlook⟩ := hlooks v.root hlive₁
    exact ⟨m, m₁, m₂, v, h, k, count, w', hx₁, hx₂, hmount, m', hx', hlook m₁ h hlast⟩

end Machine

end InodeVolume

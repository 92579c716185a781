import InodeVolume.Proofs.Allocation.FirstFit
import InodeVolume.Proofs.FileStore.Operations
import InodeVolume.Proofs.Volume.Format

/-!
Machines: a device, and a registry with one table in memory. A machine runs through legal operations
in any order; those on a volume begin with formatting. Every operation of every run ends as its file
store says.
-/
namespace InodeVolume

/-- A registry with one table over an allocator, and nothing open. -/
def Registry.over {σ : Type} (a : σ) : Registry σ := ⟨#[⟨a, []⟩], #[]⟩

structure Machine (δ σ : Type) where
  device : δ
  registry : Registry σ

namespace Machine

open Program LawfulBlockDevice

variable {δ σ : Type} [BlockDevice δ] [Allocator σ]

/-- How an operation ends. -/
def attempt (m : Machine δ σ) (o : Operation) : Except Fault (o.Reply × Registry σ) × World δ :=
  ((o.perform ⟨0⟩).run m.registry).run ⟨m.device, #[]⟩

/-- An operation makes a reply and leaves a machine. -/
def Replies (m : Machine δ σ) (o : Operation) (x : o.Reply) (m' : Machine δ σ) : Prop :=
  ∃ journal, m.attempt o = (.ok (x, m'.registry), ⟨m'.device, journal⟩)

/-- From one machine to another by legal operations, each with its reply. -/
inductive Reaches (m₀ : Machine δ σ) (st₀ : FileStore) : Machine δ σ → FileStore → Prop
  | refl : Reaches m₀ st₀ m₀ st₀
  | step {m m' : Machine δ σ} {st : FileStore} {o : Operation} {x : o.Reply} :
    Reaches m₀ st₀ m st → st.Legal o → m.Replies o x m' → Reaches m₀ st₀ m' (st.after o x)

theorem Replies.unique {m m' m'' : Machine δ σ} {o : Operation} {x y : o.Reply}
    (h : m.Replies o x m') (h' : m.Replies o y m'') : x = y ∧ m' = m'' := by
  obtain ⟨journal, h⟩ := h
  obtain ⟨journal', h'⟩ := h'
  rw [h] at h'
  cases m'
  cases m''
  simp_all

/-- A run on a volume: it begins with formatting a device that is large enough. -/
def OnVolume [LawfulBlockDevice δ] (total : UInt32) (m : Machine δ FreeMap) (st : FileStore) :
    Prop :=
  ∃ (d : δ) (v : Volume) (w : World δ), total.toNat ≤ size d ∧
    (Volume.format total).run ⟨d, #[]⟩ = (.ok (.ok v), w) ∧
    Reaches ⟨w.device, .over v.freeMap⟩ (.initial v.root) m st

/-- Loading changes nothing. -/
theorem world_eq_of_load {α : Type} [SectorLayout α] {s : SectorId} {x : α} {w w' : World δ}
    (h : (Disk.load s).run w = (.ok x, w')) : w' = w := by
  simp only [Disk.load, Disk.readSector, request, bind_eq, pure_eq, ask_bind, done_bind, run] at h
  split at h
  · cases h
    rfl
  · cases h

variable [LawfulBlockDevice δ] {n : Nat} {l : Lender σ n} {m m' m₀ : Machine δ σ}
  {st st₀ : FileStore} {o : Operation}

/-- The machine is that of a file store. -/
structure InUse (l : Lender σ n) (m : Machine δ σ) (st : FileStore) : Prop where
  size_le : n ≤ size m.device
  consistent : Consistent l (image m.device) m.registry st

namespace InUse

theorem laid (h : InUse l m st) : Laid (image m.device) st := by
  obtain ⟨a, registered, hc⟩ := h.consistent
  exact hc.laid

theorem represents (h : InUse l m st) {s : SectorId} (hs : s ∈ st.live) :
    Represents (image m.device) s (st.file s) := h.laid.represents hs

/-- A legal operation that runs into no assertion replies what the store admits. -/
theorem attempt_ok (h : InUse l m st) (hlegal : st.Legal o) (hrefusal : st.refusal o = none) :
    ∃ x m', m.Replies o x m' ∧ st.Admits o x ∧ InUse l m' (st.after o x) := by
  obtain ⟨a, registered, hc⟩ := h.consistent
  obtain ⟨⟨x, reg'⟩, w, writes, hrun, ⟨hadmits, hcons⟩, hsize, -⟩ :=
    (hc.perform_ensures hlegal hrefusal).run (w := ⟨m.device, #[]⟩) fun k hk =>
      Nat.lt_of_lt_of_le hk h.size_le
  exact ⟨x, ⟨w.device, reg'⟩, ⟨w.journal, hrun⟩, hadmits, h.size_le.trans_eq hsize.symm, hcons⟩

/-- An operation that is granted no write leaves the device as it is. -/
theorem replies_silent (h : InUse l m st) {Q : o.Reply × Registry σ → Image → Prop}
    (ho : ((o.perform ⟨0⟩).run m.registry).Ensures (· < n) (fun _ _ => False) Q (image m.device)) :
    ∃ x m', m.Replies o x m' ∧ Q (x, m'.registry) (image m.device) ∧ m'.device = m.device := by
  obtain ⟨⟨x, reg⟩, w, hrun, hq, hdevice, -⟩ := ho.run_silent (w := ⟨m.device, #[]⟩) fun k hk =>
    Nat.lt_of_lt_of_le hk h.size_le
  rw [hdevice] at hq
  exact ⟨x, ⟨w.device, reg⟩, ⟨w.journal, hrun⟩, hq, hdevice⟩

/-- A legal operation that runs into an assertion does so before it has touched the device. -/
theorem attempt_refused (h : InUse l m st) (hlegal : st.Legal o) {b : Breach}
    (hrefusal : st.refusal o = some b) :
    m.attempt o = (.error (.breach b), ⟨m.device, #[]⟩) := by
  obtain ⟨a, registered, hc⟩ := h.consistent
  rw [attempt, hc.perform_refused hlegal hrefusal]
  rfl

theorem refusal_eq_none (h : InUse l m st) (hlegal : st.Legal o) {x : o.Reply}
    (hx : m.Replies o x m') : st.refusal o = none := by
  cases hrefusal : st.refusal o with
  | none => rfl
  | some b =>
    obtain ⟨journal, hx⟩ := hx
    rw [h.attempt_refused hlegal hrefusal] at hx
    cases hx

/-- One step of a machine. -/
theorem step (h : InUse l m st) (hlegal : st.Legal o) {x : o.Reply} (hx : m.Replies o x m') :
    st.Admits o x ∧ InUse l m' (st.after o x) ∧
      Agree (st.spared (image m.device) o) (image m.device) (image m'.device) := by
  have hrefusal := h.refusal_eq_none hlegal hx
  obtain ⟨a, registered, hc⟩ := h.consistent
  obtain ⟨journal, hrun⟩ := hx
  obtain ⟨⟨⟨hadmits, hcons⟩, hspares⟩, hsize⟩ :=
    (hc.perform_spares hlegal hrefusal).of_run (w := ⟨m.device, #[]⟩)
      (fun k hk => Nat.lt_of_lt_of_le hk h.size_le) hrun
  exact ⟨hadmits, ⟨h.size_le.trans_eq hsize.symm, hcons⟩, hspares⟩

/-- What is in use besides an inode stays as it is by what is done with the inode. -/
theorem others_of_on (h : InUse l m st) {s : SectorId} (hlegal : st.Legal o)
    (hon : st.On s o) {x : o.Reply} (hx : m.Replies o x m') :
    (st.after o x).others (image m'.device) s = st.others (image m.device) s := by
  obtain ⟨-, -, hspares⟩ := h.step hlegal hx
  have hothers := hspares.mono (FileStore.others_subset_spared hon)
  rw [h.laid.others_eq (FileStore.live_erase_after hon x)
    (hothers.mono Finset.subset_union_right), FileStore.held_after hon x, FileStore.others]

theorem after (h : InUse l m st) (hlegal : st.Legal o) {x : o.Reply} (hx : m.Replies o x m') :
    st.Admits o x ∧ InUse l m' (st.after o x) := by
  obtain ⟨hadmits, hinUse, -⟩ := h.step hlegal hx
  exact ⟨hadmits, hinUse⟩

/-- An open that fails leaves the machine as it is. -/
theorem eq_of_openAt_error (hu : InUse l m st) {t : SectorId} {e : VolumeError}
    (hx : m.Replies (.openAt t) (.error e) m') : m' = m := by
  obtain ⟨a, registered, hc⟩ := hu.consistent
  obtain ⟨journal, hrun⟩ := hx
  obtain ⟨device, registry⟩ := m
  obtain ⟨device', registry'⟩ := m'
  rw [attempt, Operation.perform] at hrun
  cases hfind : registry.find? ⟨a, registered⟩ t with
  | some k =>
    obtain ⟨x, hx, -⟩ := (Option.any_eq_true _ _).1 (Registry.mem_of_find? hfind).2
    rw [RegistryM.openAt_run_found hc.table?_eq hfind hx] at hrun
    cases hrun
  | none =>
    rw [RegistryM.openAt_run_new hc.table?_eq hfind] at hrun
    obtain ⟨record, w, hload, hrest⟩ := run_bind_ok hrun
    obtain rfl := world_eq_of_load hload
    split at hrest
    · cases hrest
      rfl
    · cases hrest

theorem reaches (h : InUse l m₀ st₀) (hr : Reaches m₀ st₀ m st) : InUse l m st := by
  induction hr with
  | refl => exact h
  | step _ hlegal hx ih => exact (ih.after hlegal hx).2

end InUse

/-- Nothing is open in a new registry. -/
theorem InUse.over {a : σ} {d : δ} (hsize : n ≤ size d) (hlaid : Laid (image d) st)
    (hl : l.lends a (image d) (st.used (image d))) (hopened : ∀ h, st.opened h = none) :
    InUse l ⟨d, .over a⟩ st where
  size_le := hsize
  consistent := ⟨a, [], {
    laid := hlaid
    tables := rfl
    lends := hl
    mem_registered := fun h => by simp [hopened]
    handle := fun h => by simp [hopened] at h
    live := fun h => by simp [hopened] at h
    openers_pos := fun h => by simp [hopened] at h
    single := fun h => by simp [hopened] at h }⟩

/-- Formatting succeeds on every device that is large enough, and leaves the store with an empty
root directory. -/
theorem format_inUse (total : UInt32) {d : δ} (hsize : total.toNat ≤ size d) :
    ∃ x w, (Volume.format total).run ⟨d, #[]⟩ = (.ok x, w) ∧ match x with
      | .error e => e = .noSpace ∧ total.toNat < FreeMap.blocksFor total.toNat + 3
      | .ok v => FreeMap.blocksFor total.toNat + 3 ≤ total.toNat ∧
        ∃ hm : (Volume.mapOf total).Fits total.toNat,
          InUse (FreeMap.lender hm) ⟨w.device, .over v.freeMap⟩ (.initial v.root) := by
  obtain ⟨x, w, writes, hrun, hpost, hdevice, -⟩ :=
    (Volume.format_ensures (Nat.le_refl total.toNat)).run (w := ⟨d, #[]⟩) fun k hk =>
      Nat.lt_of_lt_of_le hk hsize
  refine ⟨x, w, hrun, ?_⟩
  rcases x with e | v
  · exact hpost
  · obtain ⟨hspace, hmap, hlaid, htracks, -⟩ := hpost
    exact ⟨hspace, Volume.fits_mapOf (Nat.le_refl _) hspace,
      .over (hsize.trans_eq hdevice.symm) hlaid ⟨hmap, htracks⟩ fun _ => rfl⟩

/-- Every state of every run on a volume is that of its file store, over the free map. -/
theorem OnVolume.inUse {total : UInt32} {m : Machine δ FreeMap} (h : OnVolume total m st) :
    ∃ hm : (Volume.mapOf total).Fits total.toNat, InUse (FreeMap.lender hm) m st := by
  obtain ⟨d, v, w, hsize, hformat, hreaches⟩ := h
  obtain ⟨x, w', hrun, hpost⟩ := format_inUse _ hsize
  rw [hformat] at hrun
  cases hrun
  obtain ⟨-, hm, hinUse⟩ := hpost
  exact ⟨hm, hinUse.reaches hreaches⟩

theorem OnVolume.step {total : UInt32} {m m' : Machine δ FreeMap} {x : o.Reply}
    (h : OnVolume total m st) (hlegal : st.Legal o) (hx : m.Replies o x m') :
    OnVolume total m' (st.after o x) := by
  obtain ⟨d, v, w, hsize, hformat, hreaches⟩ := h
  exact ⟨d, v, w, hsize, hformat, hreaches.step hlegal hx⟩

/-- Every device that has room for the root directory gets a volume. -/
theorem exists_format (total : UInt32) {d : δ} (hsize : total.toNat ≤ size d)
    (hspace : FreeMap.blocksFor total.toNat + 3 ≤ total.toNat) :
    ∃ v w, (Volume.format total).run ⟨d, #[]⟩ = (.ok (.ok v), w) ∧
      ∃ hm : (Volume.mapOf total).Fits total.toNat,
        InUse (FreeMap.lender hm) ⟨w.device, .over v.freeMap⟩ (.initial v.root) := by
  obtain ⟨x, w, hrun, hpost⟩ := format_inUse _ hsize
  rcases x with e | v
  · exact absurd hspace (Nat.not_le.2 hpost.2)
  · exact ⟨v, w, hrun, hpost.2⟩

/-- A run can begin there. -/
theorem exists_onVolume (total : UInt32) {d : δ} (hsize : total.toNat ≤ size d)
    (hspace : FreeMap.blocksFor total.toNat + 3 ≤ total.toNat) :
    ∃ (m : Machine δ FreeMap) (root : SectorId), OnVolume total m (.initial root) := by
  obtain ⟨v, w, hrun, -⟩ := exists_format total hsize hspace
  exact ⟨_, v.root, d, v, w, hsize, hrun, .refl⟩

/-- The root directory of a new volume can be opened. -/
theorem exists_onVolume_opened (total : UInt32) {d : δ} (hsize : total.toNat ≤ size d)
    (hspace : FreeMap.blocksFor total.toNat + 3 ≤ total.toNat) :
    ∃ (m : Machine δ FreeMap) (root : SectorId) (h : HandleId),
      OnVolume total m ((FileStore.initial root).setOpened h (some ⟨root, 1, false, 0⟩)) := by
  obtain ⟨m, root, hm⟩ := exists_onVolume total hsize hspace
  have hlegal : (FileStore.initial root).Legal (.openAt root) := Finset.mem_singleton_self root
  obtain ⟨_, hinUse⟩ := hm.inUse
  obtain ⟨x, m', hx, hadmits, -⟩ := hinUse.attempt_ok hlegal rfl
  cases x with
  | error e => exact hadmits.elim
  | ok h => exact ⟨m', root, h, hm.step hlegal hx⟩

/-- An inode is created if the allocator has served for it. -/
theorem InUse.createAt_replies_of_serve {e : InodeTable σ} {s : SectorId} {length : Nat}
    {kind : InodeKind} (h : InUse l m st) (ht : m.registry.table? ⟨0⟩ = some e)
    (hserve : ((Store.createAt s length kind).serve e.allocator).Ensures (· < n) (fun _ _ => True)
      (fun x _ => x.1 = .ok ()) (image m.device)) :
    ∃ m', m.Replies (.createAt s length kind) (.ok ()) m' := by
  have hserved : (((Operation.createAt s length kind).perform ⟨0⟩).run m.registry).Ensures (· < n)
      (fun _ _ => True) (fun x _ => x.1 = .ok ()) (image m.device) := by
    simp only [Operation.perform, RegistryM.served_run ht, ensures_bind]
    exact hserve
  obtain ⟨⟨x, reg⟩, w, writes, hrun, hx, -⟩ := hserved.run (w := ⟨m.device, #[]⟩) fun k hk =>
    Nat.lt_of_lt_of_le hk h.size_le
  obtain rfl : x = .ok () := hx
  exact ⟨⟨w.device, reg⟩, w.journal, hrun⟩

/-- Over a free map an inode is created if there are enough free sectors for it. -/
theorem InUse.createAt_replies {fm : FreeMap} {hm : fm.Fits n} {m : Machine δ FreeMap}
    {s : SectorId} {length : Nat} (h : InUse (FreeMap.lender hm) m st) (hs : s ∈ st.held)
    (hlength : length ≤ maxFileSize) (kind : InodeKind)
    (hle : fm.reserved + (st.used (image m.device)).card + totalSectors (dataBlocks length) ≤
      fm.capacity) : ∃ m', m.Replies (.createAt s length kind) (.ok ()) m' := by
  obtain ⟨a, registered, hc⟩ := h.consistent
  obtain ⟨rfl, htracks⟩ := hc.lends
  refine h.createAt_replies_of_serve hc.table?_eq ?_
  refine (FreeMap.createAt_ensures kind hm htracks (Finset.mem_union_left _ hs) hlength hle).imp ?_
  rintro _ d' ⟨rfl, -⟩
  rfl

/-- A sector is handed out if there is one. -/
theorem InUse.allocate_replies {fm : FreeMap} {hm : fm.Fits n} {m : Machine δ FreeMap}
    (h : InUse (FreeMap.lender hm) m st)
    (hlt : fm.reserved + (st.used (image m.device)).card < fm.capacity) :
    ∃ s m', m.Replies .allocate (some s) m' := by
  obtain ⟨a, registered, hc⟩ := h.consistent
  obtain ⟨rfl, htracks⟩ := hc.lends
  have hserved : ((Operation.allocate.perform ⟨0⟩).run m.registry).Ensures (· < n)
      (fun _ _ => True) (fun x _ => ∃ s, x.1 = some s) (image m.device) := by
    rw [Operation.perform, RegistryM.served_run hc.table?_eq, ensures_bind, ensures_serve_allocate]
    simp only [Allocator.allocate, bind_eq, pure_eq, ensures_bind, ensures_done]
    exact (FreeMap.allocate_free_ensures hm htracks hlt).imp fun x _ hx =>
      ⟨hx.choose, hx.choose_spec.1⟩
  obtain ⟨⟨x, reg⟩, w, -, hrun, ⟨s, rfl⟩, -⟩ := hserved.run (w := ⟨m.device, #[]⟩) fun k hk =>
    Nat.lt_of_lt_of_le hk h.size_le
  exact ⟨s, ⟨w.device, reg⟩, w.journal, hrun⟩

section Sequences

variable {δ σ α β : Type} [BlockDevice δ] {m m' m'' : Machine δ σ}

/-- A program over the registry ends with a result and leaves a machine. -/
def Performs (m : Machine δ σ) (p : RegistryM σ α) (x : α) (m' : Machine δ σ) : Prop :=
  ∃ w, (p.run m.registry).run ⟨m.device, #[]⟩ = (.ok (x, m'.registry), w) ∧ w.device = m'.device

theorem Performs.pure (m : Machine δ σ) (x : α) : m.Performs (Pure.pure x : RegistryM σ α) x m :=
  ⟨⟨m.device, #[]⟩, rfl, rfl⟩

theorem Performs.bind {p : RegistryM σ α} {k : α → RegistryM σ β} {x : α} {y : β}
    (hp : m.Performs p x m') (hk : m'.Performs (k x) y m'') : m.Performs (p >>= k) y m'' := by
  obtain ⟨⟨d, journal⟩, hp, rfl⟩ := hp
  obtain ⟨w, hk, hdevice⟩ := hk
  have hsame := run_journal ((k x).run m'.registry) m'.device journal #[]
  rw [hk] at hsame
  refine ⟨(((k x).run m'.registry).run ⟨m'.device, journal⟩).2, ?_, hsame.2.trans hdevice⟩
  rw [StateT.run_bind, bind_eq, run_bind, hp]
  exact Prod.ext hsame.1 rfl

theorem Replies.performs [Allocator σ] {o : Operation} {x : o.Reply} (hx : m.Replies o x m') :
    m.Performs (o.perform ⟨0⟩) x m' := by
  obtain ⟨journal, hx⟩ := hx
  exact ⟨_, hx, rfl⟩

end Sequences

end Machine

end InodeVolume

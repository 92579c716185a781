import InodeVolume.Proofs.Allocation.Watching
import InodeVolume.Proofs.Registry.Forgetting
import InodeVolume.Proofs.Registry.Tallying
import InodeVolume.Proofs.Volume.Mounting
import InodeVolume.Proofs.Volume.Reclamation
import InodeVolume.Proofs.Volume.Staleness

/-!
Runs with their logs. Beside a run over a free map goes a machine of which the map records its
calls: it does the same and gives the same notices, its record is what the log says, and it is the
run itself but for the record. So whatever a watch over the map and its calls keeps true holds of
the log of every run.
-/
namespace InodeVolume

open Program

theorem Volume.discreet_mount : Volume.mount.Discreet := by
  rw [Volume.mount]
  refine Asks.bind (Disk.discreet_readSector 0) fun s => ?_
  generalize (decode s : SuperBlock) = superBlock
  refine Asks.ite ((Disk.discreet_note rfl).bind fun _ => asks_done _) ?_
  split
  · exact asks_done _
  · exact (Disk.discreet_note rfl).bind fun _ => asks_done _

theorem Registry.forget_over {σ : Type} (a : Recorded σ) :
    (Registry.over a).forget = .over a.inner := by
  simp [Registry.forget, Registry.over, forgetTable]

namespace Machine

open LawfulBlockDevice FreeMap

variable {δ : Type} [BlockDevice δ]

/-- The notices given on the way from `m₀`: by operations that `P` allows, by openings that are
refused, by counting the free sectors of the map, and by mounting the device again, after which
nothing is open. -/
inductive Logs (P : FileStore → Operation → Prop) (fm : FreeMap) (m₀ : Machine δ FreeMap)
    (st₀ : FileStore) : List Notice → Machine δ FreeMap → FileStore → Prop
  | start : Logs P fm m₀ st₀ [] m₀ st₀
  | performed {log : List Notice} {m : Machine δ FreeMap} {st : FileStore} {o : Operation}
    {x : o.Reply} {reg : Registry FreeMap} {w : World δ} : Logs P fm m₀ st₀ log m st → P st o →
    m.attempt o = (.ok (x, reg), w) →
      Logs P fm m₀ st₀ (log ++ w.notices) ⟨w.device, reg⟩ (st.after o x)
  | refused {log : List Notice} {m : Machine δ FreeMap} {st : FileStore} {s : SectorId}
    {e : VolumeError} {reg : Registry FreeMap} {w : World δ} : Logs P fm m₀ st₀ log m st →
    m.attempt (.openAt s) = (.ok (.error e, reg), w) →
      Logs P fm m₀ st₀ (log ++ w.notices) ⟨w.device, reg⟩ st
  | counted {log : List Notice} {m : Machine δ FreeMap} {st : FileStore} {free : Nat}
    {w : World δ} : Logs P fm m₀ st₀ log m st → fm.freeCount.run ⟨m.device, #[]⟩ = (.ok free, w) →
      Logs P fm m₀ st₀ (log ++ w.notices) ⟨w.device, m.registry⟩ st
  | mounted {log : List Notice} {m : Machine δ FreeMap} {st : FileStore} {v : Volume}
    {w : World δ} : Logs P fm m₀ st₀ log m st → Volume.mount.run ⟨m.device, #[]⟩ = (.ok (.ok v), w) →
      Logs P fm m₀ st₀ (log ++ w.notices) ⟨w.device, .over v.freeMap⟩ st.restarted

variable [LawfulBlockDevice δ] {n : Nat} {fm : FreeMap} {m m₀ : Machine δ FreeMap}
  {st st₀ : FileStore} {r r₀ : Machine δ (Recorded FreeMap)} {log : List Notice} {w : World δ}

/-- The machine `r` is `m`, with a map that records its calls. -/
structure Shadow (l : Lender (Recorded FreeMap) n) (m : Machine δ FreeMap) (st : FileStore)
    (r : Machine δ (Recorded FreeMap)) : Prop where
  inUse : InUse l r st
  atHome : r.registry.AtHome
  device_eq : r.device = m.device
  forget_eq : r.registry.forget = m.registry

namespace Shadow

section Lenders

variable {l : Lender (Recorded FreeMap) n}

/-- What is done is done to both machines, and the record grows by what is noted. -/
theorem attempt (h : Shadow l m st r) {o : Operation} {x : o.Reply} {reg : Registry FreeMap}
    (hx : m.attempt o = (.ok (x, reg), w)) : ∃ reg', r.attempt o = (.ok (x, reg'), w) ∧
      reg'.forget = reg ∧ reg'.AtHome ∧ reg'.calls = r.calls ++ w.calls := by
  have hforgets := RegistryM.forgets_perform ⟨0⟩ o r.registry
  rw [Machine.attempt, ← h.forget_eq, ← hforgets, ← h.device_eq] at hx
  obtain ⟨⟨y, reg'⟩, w₁, hrun, hdone⟩ := run_bind_ok hx
  cases hdone
  obtain ⟨t, hends, hcalls⟩ := exists_ends_calls hrun
  obtain ⟨hhome, hrecords⟩ := RegistryM.tallies_perform o r.registry h.atHome t _ reg' hends
  refine ⟨reg', hrun, rfl, hhome, ?_⟩
  rw [hcalls]
  exact hrecords

theorem performed (h : Shadow l m st r) {o : Operation} {x : o.Reply} {reg : Registry FreeMap}
    (hlegal : st.Legal o) (hx : m.attempt o = (.ok (x, reg), w)) :
    ∃ r', Shadow l ⟨w.device, reg⟩ (st.after o x) r' ∧ r'.calls = r.calls ++ w.calls := by
  obtain ⟨reg', hrun, hforget, hhome, hcalls⟩ := h.attempt hx
  have hreplies : r.Replies o x ⟨w.device, reg'⟩ := ⟨w.journal, hrun⟩
  exact ⟨_, ⟨(h.inUse.after hlegal hreplies).2, hhome, rfl, hforget⟩, hcalls⟩

theorem refused (h : Shadow l m st r) {s : SectorId} {e : VolumeError} {reg : Registry FreeMap}
    (hx : m.attempt (.openAt s) = (.ok (.error e, reg), w)) :
    Shadow l ⟨w.device, reg⟩ st r ∧ w.calls = [] := by
  obtain ⟨reg', hrun, hforget, hhome, hcalls⟩ := h.attempt hx
  have hreplies : r.Replies (.openAt s) (.error e) ⟨w.device, reg'⟩ := ⟨w.journal, hrun⟩
  have hsame := h.inUse.eq_of_openAt_error hreplies
  obtain rfl : reg' = r.registry := congrArg Machine.registry hsame
  exact ⟨⟨h.inUse, hhome, (congrArg Machine.device hsame).symm, hforget⟩,
    List.self_eq_append_right.1 hcalls⟩

end Lenders

variable {W W' : fm.Watch} {hm : fm.Fits n}

/-- The watch holds. -/
theorem holds (h : Shadow (W.lender hm) m st r) : fm.Tracks (image m.device)
    (st.used (image m.device)) ∧ W.holds r.calls (image m.device) (st.used (image m.device)) := by
  obtain ⟨a, registered, hc⟩ := h.inUse.consistent
  obtain ⟨-, htracks, hwatch⟩ := hc.lends
  rw [calls, Registry.calls_eq hc.table?_eq, ← h.device_eq]
  exact ⟨htracks, hwatch⟩

/-- Another watch takes over where it holds. -/
theorem watch (h : Shadow (W.lender hm) m st r)
    (hW : W'.holds r.calls (image m.device) (st.used (image m.device))) :
    Shadow (W'.lender hm) m st r := by
  obtain ⟨⟨hsize, a, registered, hc⟩, hhome, hdevice, hforget⟩ := h
  obtain ⟨hinner, htracks, -⟩ := hc.lends
  rw [calls, Registry.calls_eq hc.table?_eq, ← hdevice] at hW
  exact ⟨⟨hsize, a, registered, { hc with lends := ⟨hinner, htracks, hW⟩ }⟩, hhome, hdevice,
    hforget⟩

/-- Counting changes nothing and notes no call. -/
theorem counted (h : Shadow (W.lender hm) m st r) {free : Nat}
    (hx : fm.freeCount.run ⟨m.device, #[]⟩ = (.ok free, w)) :
    Shadow (W.lender hm) ⟨w.device, m.registry⟩ st r ∧ w.calls = [] := by
  have hsize := h.inUse.size_le
  rw [h.device_eq] at hsize
  obtain ⟨_, w', hrun, -, hdevice, -⟩ :=
    (FreeMap.freeCount_ensures (G := fun _ _ => False) (Q := fun _ _ => True) hm h.holds.1
      (fun _ hi => hi) trivial).run_silent (w := ⟨m.device, #[]⟩) fun i hi =>
        Nat.lt_of_lt_of_le hi hsize
  rw [hx] at hrun
  cases hrun
  obtain ⟨t, hends, hcalls⟩ := exists_ends_calls hx
  rw [fm.discreet_freeCount.noted_eq hends] at hcalls
  exact ⟨⟨h.inUse, h.atHome, h.device_eq.trans hdevice.symm, h.forget_eq⟩, hcalls⟩

end Shadow

section Volumes

variable {total : UInt32} {root : SectorId} {hm : (Volume.mapOf total).Fits total.toNat}
  {W : (Volume.mapOf total).Watch}

/-- The super block stays where it is, besides what is kept true otherwise. -/
def superWatch (hm : (Volume.mapOf total).Fits total.toNat) (root : SectorId)
    (W : (Volume.mapOf total).Watch) : (Volume.mapOf total).Watch :=
  (watchZero hm (Volume.superSector total root)).and W

/-- Mounting finds the map again, whose record goes on. -/
theorem Shadow.mounted (h : Shadow ((superWatch hm root W).lender hm) m st r) {v : Volume}
    (hx : Volume.mount.run ⟨m.device, #[]⟩ = (.ok (.ok v), w)) :
    ∃ r', Shadow ((superWatch hm root W).lender hm) ⟨w.device, .over v.freeMap⟩ st.restarted r' ∧
      r'.calls = r.calls ∧ w.calls = [] := by
  have hsize := h.inUse.size_le
  rw [h.device_eq] at hsize
  have hzero : 0 < total.toNat :=
    Nat.lt_of_lt_of_le (Nat.add_pos_left Nat.one_pos _) hm.reserved_le
  obtain ⟨_, w', hrun, hv, hdevice, -⟩ :=
    (Volume.mount_ensures (G := fun _ _ => False) h.holds.2.1 hzero).run_silent
      (w := ⟨m.device, #[]⟩) fun i hi => Nat.lt_of_lt_of_le hi hsize
  rw [hx] at hrun
  cases hrun
  obtain rfl := Except.ok.inj hv
  obtain ⟨t, hends, hcalls⟩ := exists_ends_calls hx
  rw [Volume.discreet_mount.noted_eq hends] at hcalls
  obtain ⟨a, registered, hc⟩ := h.inUse.consistent
  refine ⟨⟨r.device, .over a⟩, ⟨h.inUse.restarted hc.table?_eq, ?_, h.device_eq.trans hdevice.symm,
    ?_⟩, ?_, hcalls⟩
  · intro k entry hk
    cases hk
  · have hinner : a.inner = Volume.mapOf total := hc.lends.1
    exact (Registry.forget_over a).trans (congrArg Registry.over hinner)
  · rw [calls, calls, Registry.calls_eq hc.table?_eq]
    rfl

/-- The record of a run grows by the calls that its log names. -/
theorem Logs.shadow (h : Logs FileStore.Legal (Volume.mapOf total) m₀ st₀ log m st)
    (h₀ : Shadow ((superWatch hm root W).lender hm) m₀ st₀ r₀) :
    ∃ r, Shadow ((superWatch hm root W).lender hm) m st r ∧
      r.calls = r₀.calls ++ log.filterMap Notice.call? := by
  have next {log : List Notice} {c : List Call} {r r' : Machine δ (Recorded FreeMap)} {w : World δ}
      (hcalls : r.calls = r₀.calls ++ log.filterMap Notice.call?)
      (hcalls' : r'.calls = r.calls ++ c) (hw : w.calls = c) :
      r'.calls = r₀.calls ++ (log ++ w.notices).filterMap Notice.call? := by
    rw [hcalls', hcalls, List.filterMap_append, List.append_assoc, ← hw]
    rfl
  induction h with
  | start => exact ⟨r₀, h₀, (List.append_nil _).symm⟩
  | performed _ hlegal hx ih =>
    obtain ⟨r, hr, hcalls⟩ := ih
    obtain ⟨r', hr', hcalls'⟩ := hr.performed hlegal hx
    exact ⟨r', hr', next hcalls hcalls' rfl⟩
  | refused _ hx ih =>
    obtain ⟨r, hr, hcalls⟩ := ih
    obtain ⟨hr', hw⟩ := hr.refused hx
    exact ⟨r, hr', next hcalls (List.append_nil _).symm hw⟩
  | counted _ hx ih =>
    obtain ⟨r, hr, hcalls⟩ := ih
    obtain ⟨hr', hw⟩ := hr.counted hx
    exact ⟨r, hr', next hcalls (List.append_nil _).symm hw⟩
  | mounted _ hx ih =>
    obtain ⟨r, hr, hcalls⟩ := ih
    obtain ⟨r', hr', hsame, hw⟩ := hr.mounted hx
    exact ⟨r', hr', next hcalls (hsame.trans (List.append_nil _).symm) hw⟩

/-- A new volume has a shadow that has made no call. -/
theorem format_shadow {d : δ} {v : Volume} (hsize : total.toNat ≤ size d)
    (hformat : (Volume.format total).run ⟨d, #[]⟩ = (.ok (.ok v), w)) :
    v.freeMap = Volume.mapOf total ∧ ∃ hm : (Volume.mapOf total).Fits total.toNat,
      (Volume.mapOf total).Tracks (image w.device)
        ((FileStore.initial v.root).used (image w.device)) ∧
      ∀ W : (Volume.mapOf total).Watch, W.holds [] (image w.device)
          ((FileStore.initial v.root).used (image w.device)) →
        ∃ r, Shadow ((superWatch hm v.root W).lender hm) ⟨w.device, .over v.freeMap⟩
          (.initial v.root) r ∧ r.calls = [] := by
  obtain ⟨⟨hspace, hmap, hlaid, htracks, hsuper⟩, hdevice⟩ :=
    (Volume.format_ensures (Nat.le_refl total.toNat)).of_run (w := ⟨d, #[]⟩)
      (fun k hk => Nat.lt_of_lt_of_le hk hsize) hformat
  have hm := Volume.fits_mapOf (Nat.le_refl _) hspace
  refine ⟨hmap, hm, htracks, fun W hW => ⟨⟨w.device, .over ⟨v.freeMap, []⟩⟩, ⟨?_, ?_, rfl,
    Registry.forget_over _⟩, rfl⟩⟩
  · exact .over (hsize.trans_eq hdevice.symm) hlaid ⟨hmap, htracks, hsuper, hW⟩ fun _ => rfl
  · intro k entry hk
    cases hk

end Volumes

/-- An empty file is made on a new volume, opened, removed and closed. -/
theorem exists_logs_removed : ∃ (v : Volume) (w w' : World SectorArray) (s : SectorId)
    (k : HandleId) (log : List Notice) (m : Machine SectorArray FreeMap) (st : FileStore)
    (reg : Registry FreeMap),
    (Volume.format 6).run ⟨SectorArray.filled 6 0, #[]⟩ = (.ok (.ok v), w) ∧
      Logs FileStore.Legal v.freeMap ⟨w.device, .over v.freeMap⟩ (.initial v.root) log m st ∧
      st.opened k = some ⟨s, 1, true, 0⟩ ∧ m.attempt (.close k) = (.ok ((), reg), w') := by
  have hle : (6 : UInt32).toNat ≤ size (SectorArray.filled 6 0) := by decide
  obtain ⟨v, w, hformat, hm, hu₀⟩ := exists_format 6 hle (by decide)
  have hv₀ : OnVolume 6 ⟨w.device, .over v.freeMap⟩ (.initial v.root) :=
    ⟨_, v, w, hle, hformat, .refl⟩
  obtain ⟨free, hfree, -⟩ := hv₀.countsFree
  obtain rfl : free = 2 := hv₀.free_eq_two hfree rfl rfl rfl
  obtain ⟨s, m₁, rest, ⟨journal₁, hx₁⟩, -, -⟩ := hv₀.create_exact hfree 0 .file
  obtain ⟨-, hu₁⟩ := hu₀.after (o := .create 0 .file) trivial ⟨journal₁, hx₁⟩
  have hlive : s ∈ ((FileStore.initial v.root).after (.create 0 .file) (.ok s)).live :=
    Finset.mem_insert_self s {v.root}
  obtain ⟨_ | k, m₂, ⟨journal₂, hx₂⟩, hadmits, hu₂⟩ :=
    hu₁.attempt_ok (o := .openAt s) hlive rfl
  · exact hadmits.elim
  have hopened : (((FileStore.initial v.root).after (.create 0 .file) (.ok s)).after (.openAt s)
    (.ok k)).opened k = some ⟨s, 1, false, 0⟩ := FileStore.opened_setOpened_self _ _ _
  obtain ⟨⟨⟩, m₃, ⟨journal₃, hx₃⟩, -, hu₃⟩ := hu₂.attempt_ok (o := .remove k) ⟨_, hopened⟩ rfl
  have hremoved := FileStore.opened_remove_self hopened
  obtain ⟨⟨⟩, m₄, ⟨journal₄, hx₄⟩, -, -⟩ := hu₃.attempt_ok (o := .close k) ⟨_, hremoved⟩ rfl
  have hnew : Logs FileStore.Legal v.freeMap ⟨w.device, .over v.freeMap⟩ (.initial v.root) [] _ _ :=
    .start
  have hmade := hnew.performed (o := .create 0 .file) trivial hx₁
  have hlogs := (hmade.performed (o := .openAt s) hlive hx₂).performed (o := .remove k)
    ⟨_, hopened⟩ hx₃
  exact ⟨v, w, _, s, k, _, _, _, _, hformat, hlogs, hremoved, hx₄⟩

end Machine

end InodeVolume

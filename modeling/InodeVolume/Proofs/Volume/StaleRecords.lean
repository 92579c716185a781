import InodeVolume.Proofs.Allocation.FirstFit
import InodeVolume.Proofs.Volume.Logging

/-!
Records that outlive their inodes. The last close of a removed inode gives its sectors back and
writes nothing else, so the record stays on the device as it was, valid. Until the sector is handed
out again, whoever opens it gets a handle to the inode that is gone.
-/
namespace InodeVolume

open Program

theorem Notice.eq_allocated_of_call? {n : Notice} {x : Option SectorId}
    (h : n.call? = some (.allocated x)) : n = .allocated x := by
  cases n <;> cases h
  rfl

theorem FileStore.notMem_live_of_notMem_used {st : FileStore} {d : Image} {s : SectorId}
    (h : s ∉ st.used d) : s ∉ st.live := fun hs =>
  h (FileStore.footprint_subset_used hs (self_mem_footprint d s))

/-- To give back all that an inode has, nothing is written outside the map. -/
theorem FreeMap.giveBack_ensures {m : FreeMap} {size : Nat} {d : Image} {s : SectorId}
    {ids : List SectorId} {R : Finset SectorId} (hm : m.Fits size)
    (h : m.Tracks d (insert s ids.toFinset ∪ R)) (hnodup : ids.Nodup) (hs : s ∉ ids.toFinset)
    (hR : Disjoint (insert s ids.toFinset) R) :
    ((do
      Store.releaseAll ids
      Store.release s).serve m).Ensures m.InMap (fun _ _ => True)
      (fun x d' => x.2 = m ∧ m.Tracks d' R) d := by
  obtain ⟨hsR, hidsR⟩ := Finset.disjoint_insert_left.1 hR
  have hset : insert s ids.toFinset ∪ R = insert s R ∪ ids.toFinset := by
    rw [Finset.insert_union, Finset.insert_union, Finset.union_comm]
  rw [hset] at h
  have hids (x : SectorId) (hx : x ∈ ids) : x ∉ insert s R := by
    rw [Finset.mem_insert, not_or]
    refine ⟨?_, Finset.disjoint_left.1 hidsR (List.mem_toFinset.2 hx)⟩
    rintro rfl
    exact hs (List.mem_toFinset.2 hx)
  rw [bind_eq, ensures_serve_bind]
  refine (releaseAll_ensures hm h hnodup hids).imp ?_
  rintro ⟨⟨⟩, _⟩ d' ⟨rfl, htracks⟩
  rw [ensures_serve_release]
  simp only [Allocator.release, bind_eq, pure_eq, ensures_bind, ensures_done]
  refine (release_ensures hm htracks (Finset.mem_insert_self s R)).mono (fun _ => id)
    (fun _ _ _ => trivial) ?_
  rintro _ d'' ⟨-, htracks'⟩
  rw [Finset.erase_insert hsR] at htracks'
  exact ⟨trivial, htracks'⟩

namespace Serving

variable {size : Nat} {fm a : FreeMap} {hm : fm.Fits size} {registered : List HandleId} {d : Image}
  {reg : Registry FreeMap} {st : FileStore} {h : HandleId} {f : OpenFile}

/-- The last close of a removed inode leaves alone what is outside the map. -/
theorem close_gone_ensures (hc : Serving (FreeMap.lender hm) a registered d reg st)
    (hf : st.opened h = some f) (hlast : f.openers = 1) (hremoved : f.removed = true) :
    (((Operation.close h).perform ⟨0⟩).run reg).Ensures (· < size) (fun _ _ => True)
      (fun _ d' => ∀ n, ¬ fm.InMap n → d' n = d n) d := by
  have hlive := hc.live hf
  have hstored := (hc.laid.represents hlive).stored
  have hothers := hc.laid.disjoint_others hlive
  have hserving := (hc.forgotten h).unopened (st.opened_setOpened_self h none)
    ⟨⟨0⟩, { f.inodeOn d with openers := f.openers - 1 }⟩
  obtain ⟨rfl, htracks⟩ := hc.lends
  have hset : insert f.inode ((recordAt d f.inode).pointerList d).toFinset =
      footprint d f.inode := by
    rw [InodeRecord.toFinset_pointerList, footprint]
  have hapart : f.inode ∉ ((recordAt d f.inode).pointerList d).toFinset := by
    rw [InodeRecord.toFinset_pointerList]
    exact hstored.apart
  rw [FileStore.used_eq_union hlive, ← hset] at htracks
  rw [← hset] at hothers
  have hgiven := FreeMap.giveBack_ensures hm htracks hstored.linked.nodup_pointerList hapart hothers
  rw [Operation.perform, hc.close_last_run hf hlast, if_pos hremoved, ensures_bind, ensures_note,
    reclaim_run (Registry.handle?_setHandle_self (Registry.handle?_setTable.trans (hc.handle hf))),
    ensures_bind]
  refine hc.within hlive (hc.reachable_ensures hlive ?_)
  rw [ensures_bind, ensures_note, RegistryM.served_run
    (Registry.table?_setHandle.trans hserving.table?_eq), ensures_bind]
  exact hgiven.frame.mono (fun _ => hm.lt_of_inMap) (fun _ _ _ => trivial) fun _ _ hx => hx.2

end Serving

namespace FreeMap

variable {m : FreeMap}

/-- Nothing is watched. -/
def watchNothing : m.Watch where
  holds _ _ _ := True
  write _ h _ := h
  refused h _ := h
  granted h _ _ _ := h
  returned h _ _ _ := h

/-- Unless it was handed out since the calls `earlier`, the sector is not lent and holds `t`. -/
def Stale (s : SectorId) (earlier : List Call) (t : Sector) (c : List Call) (d : Image)
    (U : Finset SectorId) : Prop :=
  ∃ since, c = earlier ++ since ∧ (.allocated (some s) ∉ since → s ∉ U ∧ d s.index = t)

theorem Stale.call {s : SectorId} {earlier c : List Call} {t : Sector} {d d' : Image}
    {U U' : Finset SectorId} {x : Call} (h : Stale s earlier t c d U)
    (hd : d' s.index = d s.index) (hU : x ≠ .allocated (some s) → s ∉ U → s ∉ U') :
    Stale s earlier t (c ++ [x]) d' U' := by
  obtain ⟨since, hc, hstale⟩ := h
  refine ⟨since ++ [x], by rw [hc, List.append_assoc], fun hsince => ?_⟩
  rw [List.mem_append, List.mem_singleton, not_or] at hsince
  obtain ⟨hfree, hsame⟩ := hstale hsince.1
  exact ⟨hU (Ne.symm hsince.2) hfree, hd.trans hsame⟩

def watchStale {s : SectorId} (hs : ¬ m.InMap s.index) (earlier : List Call) (t : Sector) :
    m.Watch where
  holds := Stale s earlier t
  write {c d U id} x h hid := by
    obtain ⟨since, hc, hstale⟩ := h
    refine ⟨since, hc, fun hsince => ?_⟩
    obtain ⟨hfree, hsame⟩ := hstale hsince
    have hne : s.index ≠ id.index := fun he => hfree (SectorId.index_injective he ▸ hid)
    exact ⟨hfree, (Function.update_of_ne hne _ _).trans hsame⟩
  refused h hd := h.call (hd _ hs) fun _ hfree => hfree
  granted {c d d' U id} h hd _ _ := by
    refine h.call (hd _ hs) fun hx hfree hmem => ?_
    rcases Finset.mem_insert.1 hmem with rfl | hmem
    · exact hx rfl
    · exact hfree hmem
  returned h hd _ _ := h.call (hd _ hs) fun _ hfree hmem => hfree (Finset.mem_of_mem_erase hmem)

end FreeMap

namespace Machine

open LawfulBlockDevice FreeMap

section Opening

variable {δ σ : Type} [BlockDevice δ] [Allocator σ] {m : Machine δ σ} {s : SectorId}

/-- Opening the sector is refused and changes nothing. -/
def Rejects (m : Machine δ σ) (s : SectorId) : Prop :=
  ∃ w, m.attempt (.openAt s) = (.ok (.error (.badMagic s), m.registry), w) ∧ w.device = m.device

/-- Opening the sector makes and registers a handle that there has never been, with the record. -/
def Revives (m : Machine δ σ) (s : SectorId) (r : InodeRecord) : Prop :=
  ∃ k reg w table, m.attempt (.openAt s) = (.ok (.ok k, reg), w) ∧ w.device = m.device ∧
    m.registry.handle? k = none ∧ reg.handle? k = some ⟨⟨0⟩, .ofRecord s r⟩ ∧
    reg.table? ⟨0⟩ = some table ∧ k ∈ table.registered

theorem Revives.not_rejects {r : InodeRecord} (h : m.Revives s r) : ¬ m.Rejects s := by
  rintro ⟨w', hrejected, -⟩
  obtain ⟨k, reg, w, table, hrevived, -⟩ := h
  rw [hrejected] at hrevived
  cases hrevived

variable [LawfulBlockDevice δ] {n : Nat} {l : Lender σ n} {st : FileStore}

/-- Where there is no inode any more, opening looks at nothing but the magic number. -/
theorem InUse.openAt_gone (h : InUse l m st) (hs : s ∉ st.live) (hlt : s.index < n) :
    if (recordAt (image m.device) s).isValid then m.Revives s (recordAt (image m.device) s)
    else m.Rejects s := by
  obtain ⟨a, registered, hc⟩ := h.consistent
  have hclosed (k : HandleId) (f : OpenFile) (hf : st.opened k = some f) : f.inode ≠ s := by
    rintro rfl
    exact hs (hc.live hf)
  have hfind := hc.find?_eq_none hclosed
  have hopen : (((Operation.openAt s).perform ⟨0⟩).run m.registry).Ensures (· < n)
      (fun _ _ => False) (fun x _ => if (recordAt (image m.device) s).isValid then
        x = (.ok ⟨m.registry.handles.size⟩, (m.registry.setTable ⟨0⟩
          ⟨a, registered ++ [⟨m.registry.handles.size⟩]⟩).pushHandle
            ⟨⟨0⟩, .ofRecord s (recordAt (image m.device) s)⟩)
        else x = (.error (.badMagic s), m.registry)) (image m.device) := by
    rw [Operation.perform, RegistryM.openAt_run_new hc.table?_eq hfind, ensures_bind, ensures_load,
      ← recordAt_eq_decode]
    refine ⟨hlt, ?_⟩
    cases (recordAt (image m.device) s).isValid <;> rfl
  obtain ⟨⟨x, reg⟩, w, hrun, hx, hdevice, -⟩ := hopen.run_silent (w := ⟨m.device, #[]⟩) fun k hk =>
    Nat.lt_of_lt_of_le hk h.size_le
  split at hx
  · rw [if_pos ‹_›]
    cases hx
    refine ⟨_, _, w, _, hrun, hdevice, Array.getElem?_size, Registry.handle?_pushHandle_self _,
      Registry.table?_setTable_self hc.table?_eq, ?_⟩
    exact List.mem_append_right _ (List.mem_singleton_self _)
  · rw [if_neg ‹_›]
    cases hx
    exact ⟨w, hrun, hdevice⟩

end Opening

variable {δ : Type} [BlockDevice δ] [LawfulBlockDevice δ]

section Closing

variable {n : Nat} {fm : FreeMap} {hm : fm.Fits n} {m m' : Machine δ FreeMap} {st : FileStore}
  {k : HandleId} {f : OpenFile}

/-- A run does not depend on what is kept of its calls. -/
theorem Shadow.plain {W : fm.Watch} {r : Machine δ (Recorded FreeMap)}
    (h : Shadow (W.lender hm) m st r) : InUse (FreeMap.lender hm) m st := by
  obtain ⟨⟨hsize, a, registered, hc⟩, -, hdevice, hforget⟩ := h
  obtain ⟨hinner, htracks, -⟩ := hc.lends
  rw [hdevice] at hsize hc htracks
  refine ⟨hsize, fm, registered, ⟨hc.laid, ?_, ⟨rfl, htracks⟩, hc.mem_registered, fun hf => ?_,
    hc.live, hc.openers_pos, hc.single⟩⟩
  · rw [← hforget, Registry.forget, hc.tables]
    simp [Registry.forgetTable, hinner]
  · rw [← hforget, Registry.handle?_forget]
    exact hc.handle hf

/-- By the last close of a removed inode its sector becomes free, and holds what it held. -/
theorem InUse.close_gone (h : InUse (FreeMap.lender hm) m st) (hf : st.opened k = some f)
    (hlast : f.openers = 1) (hremoved : f.removed = true) (hx : m.Replies (.close k) () m') :
    f.inode ∉ (st.after (.close k) ()).used (image m'.device) ∧ ¬ fm.InMap f.inode.index ∧
      image m'.device f.inode.index = image m.device f.inode.index := by
  obtain ⟨a, registered, hc⟩ := h.consistent
  have hlegal : st.Legal (.close k) := ⟨f, hf⟩
  have hself := FileStore.footprint_subset_used (hc.live hf)
    (self_mem_footprint (image m.device) f.inode)
  have hmap := hc.lends.2.not_inMap (owned_of_mem hself)
  have hafter : st.after (.close k) () = _ := FileStore.closed_eq hf
  rw [if_pos hlast, if_pos hremoved] at hafter
  have hnot : f.inode ∉ (st.after (.close k) ()).live := by
    rw [hafter]
    exact Finset.notMem_erase f.inode st.live
  refine ⟨?_, hmap, ?_⟩
  · rw [FileStore.used_eq_others hnot,
      h.others_of_on (o := .close k) hlegal (FileStore.inode?_eq hf) hx]
    exact Finset.disjoint_left.1 (hc.laid.disjoint_others (hc.live hf)) (self_mem_footprint _ _)
  · obtain ⟨journal, hrun⟩ := hx
    obtain ⟨hsame, -⟩ := (hc.close_gone_ensures hf hlast hremoved).of_run
      (w := ⟨m.device, #[]⟩) (fun j hj => Nat.lt_of_lt_of_le hj h.size_le) hrun
    exact hsame _ hmap

end Closing

/-- On a volume that was made on `d`, the inode on `s` was removed and its last opener closed it on
`m₀`. `log` has the notices since. -/
inductive Reclaimed (total : UInt32) (d : δ) (s : SectorId) (m₀ : Machine δ FreeMap) :
    List Notice → Machine δ FreeMap → FileStore → Prop
  | closed {v : Volume} {w₀ w : World δ} {log₀ log : List Notice} {m : Machine δ FreeMap}
    {st₀ st : FileStore} {k : HandleId} {f : OpenFile} {reg : Registry FreeMap} :
    (Volume.format total).run ⟨d, #[]⟩ = (.ok (.ok v), w₀) →
    Logs FileStore.Legal v.freeMap ⟨w₀.device, .over v.freeMap⟩ (.initial v.root) log₀ m₀ st₀ →
    st₀.opened k = some f → f.inode = s → f.openers = 1 → f.removed = true →
    m₀.attempt (.close k) = (.ok ((), reg), w) →
    Logs FileStore.Legal v.freeMap ⟨w.device, reg⟩ (st₀.after (.close k) ()) log m st →
      Reclaimed total d s m₀ log m st

namespace Reclaimed

variable {total : UInt32} {d : δ} {s : SectorId} {m₀ m : Machine δ FreeMap} {log : List Notice}
  {st : FileStore}

/-- Unless it is handed out, the sector stays free and has the record that it had when the inode was
still there. -/
theorem stale (hsize : total.toNat ≤ size d) (h : Reclaimed total d s m₀ log m st) :
    ∃ hm : (Volume.mapOf total).Fits total.toNat, InUse (FreeMap.lender hm) m st ∧
      (Volume.mapOf total).reserved ≤ s.index ∧ s.index < total.toNat ∧
      (recordAt (image m₀.device) s).isValid = true ∧
      (.allocated (some s) ∉ log → s ∉ st.used (image m.device) ∧
        recordAt (image m.device) s = recordAt (image m₀.device) s) := by
  obtain @⟨v, w₀, w, log₀, _, _, st₀, _, k, f, reg, hformat, hbefore, hf, rfl, hlast, hremoved,
    hclose, hlater⟩ := h
  obtain ⟨hmap, hm, -, hstart⟩ := format_shadow hsize hformat
  obtain ⟨r₀, h₀, -⟩ := hstart FreeMap.watchNothing trivial
  rw [hmap] at h₀ hbefore hlater
  obtain ⟨r₁, h₁, -⟩ := hbefore.shadow h₀
  obtain ⟨a, registered, hc⟩ := h₁.plain.consistent
  have hself := FileStore.footprint_subset_used (hc.live hf)
    (self_mem_footprint (image m₀.device) f.inode)
  have htracks := hc.lends.2
  have hreplies : m₀.Replies (.close k) () ⟨w.device, reg⟩ := ⟨w.journal, hclose⟩
  obtain ⟨hfree, hapart, hsame⟩ := h₁.plain.close_gone hf hlast hremoved hreplies
  obtain ⟨r₂, h₂, -⟩ := h₁.performed (o := .close k) ⟨f, hf⟩ hclose
  -- From here on the sector is under watch.
  have htaken : Shadow ((superWatch hm v.root (watchStale hapart r₂.calls
      (image w.device f.inode.index))).lender hm) ⟨w.device, reg⟩ (st₀.after (.close k) ()) r₂ :=
    h₂.watch ⟨h₂.holds.2.1, [], (List.append_nil _).symm, fun _ => ⟨hfree, rfl⟩⟩
  obtain ⟨r, hr, hcalls⟩ := hlater.shadow htaken
  obtain ⟨-, -, since, hsince, hstale⟩ := hr.holds
  rw [hcalls, List.append_cancel_left_eq] at hsince
  refine ⟨hm, hr.plain, htracks.reserved_le hself, htracks.index_lt hself,
    (hc.represents hf).stored.valid, fun hnew => ?_⟩
  have hcall : .allocated (some f.inode) ∉ since := by
    rw [← hsince, List.mem_filterMap]
    rintro ⟨notice, hmem, hcall⟩
    exact hnew (Notice.eq_allocated_of_call? hcall ▸ hmem)
  obtain ⟨hfree', hsame'⟩ := hstale hcall
  exact ⟨hfree', recordAt_congr (hsame'.trans hsame)⟩

/-- There is nothing by which opening could tell that the inode is gone. -/
theorem opens (hsize : total.toNat ≤ size d) (h : Reclaimed total d s m₀ log m st)
    (hnew : .allocated (some s) ∉ log) : m.Revives s (recordAt (image m₀.device) s) := by
  obtain ⟨hm, hu, -, hlt, hvalid, hstale⟩ := h.stale hsize
  obtain ⟨hfree, hrecord⟩ := hstale hnew
  have hopen := hu.openAt_gone (FileStore.notMem_live_of_notMem_used hfree) hlt
  rwa [hrecord, if_pos hvalid] at hopen

/-- Opening the sector of an inode that is gone is refused if there is no valid record any more, and
only then. As long as the sector is not handed out again, it is free and has the record still, and
opening it brings the inode back as it was at its last close. -/
theorem revives (hsize : total.toNat ≤ size d) (h : Reclaimed total d s m₀ log m st) :
    (s ∉ st.live → (m.Rejects s ↔ (recordAt (image m.device) s).isValid = false)) ∧
    (.allocated (some s) ∉ log → s ∉ st.live ∧
      (Volume.mapOf total).marks (image m.device) s.index = false ∧
      m.Revives s (recordAt (image m₀.device) s)) := by
  obtain ⟨hm, hu, hle, hlt, -, hstale⟩ := h.stale hsize
  refine ⟨fun hnot => ?_, fun hnew => ?_⟩
  · have hopen := hu.openAt_gone hnot hlt
    cases hvalid : (recordAt (image m.device) s).isValid with
    | true =>
      rw [if_pos hvalid] at hopen
      exact iff_of_false hopen.not_rejects nofun
    | false =>
      rw [if_neg (Bool.eq_false_iff.1 hvalid)] at hopen
      exact iff_of_true hopen rfl
  · obtain ⟨hfree, -⟩ := hstale hnew
    obtain ⟨a, registered, hc⟩ := hu.consistent
    refine ⟨FileStore.notMem_live_of_notMem_used hfree, Bool.eq_false_iff.2 fun hmarks => ?_,
      h.opens hsize hnew⟩
    rcases (hc.lends.2.marks_iff s.index (hlt.trans_le hm.capacity_le_bits)).1 hmarks with hlow | ho
    · exact Nat.not_lt.2 hle hlow
    · exact not_owned_of_not_mem hfree ho

end Reclaimed

theorem exists_reclaimed : ∃ s m₀ m st, Reclaimed 6 (SectorArray.filled 6 0) s m₀ [] m st := by
  obtain ⟨v, w, w', s, k, log, m, st, reg, hformat, hlogs, hopened, hclose⟩ := exists_logs_removed
  exact ⟨s, _, _, _, .closed hformat hlogs hopened rfl rfl rfl hclose .start⟩

/-- A file that is gone comes back. -/
theorem revives_reclaimed_file : ∃ (s : SectorId) (m₀ m : Machine SectorArray FreeMap)
    (st : FileStore), Reclaimed 6 (SectorArray.filled 6 0) s m₀ [] m st ∧
      (Volume.mapOf 6).marks (image m.device) s.index = false ∧
      m.Revives s (recordAt (image m₀.device) s) := by
  obtain ⟨s, m₀, m, st, h⟩ := exists_reclaimed
  obtain ⟨-, hmarks, hopen⟩ := (h.revives (by decide)).2 List.not_mem_nil
  exact ⟨s, m₀, m, st, h, hmarks, hopen⟩

/-- Its sector is not rejected. -/
theorem not_rejects_reclaimed : ∃ (s : SectorId) (m₀ m : Machine SectorArray FreeMap)
    (st : FileStore), Reclaimed 6 (SectorArray.filled 6 0) s m₀ [] m st ∧ ¬ m.Rejects s := by
  obtain ⟨s, m₀, m, st, h⟩ := exists_reclaimed
  exact ⟨s, m₀, m, st, h, (h.opens (by decide) List.not_mem_nil).not_rejects⟩

end Machine

end InodeVolume

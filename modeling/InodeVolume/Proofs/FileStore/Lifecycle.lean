import InodeVolume.Proofs.FileStore.Allocation

/-!
The life of a handle. Opening registers it or counts one opener more, closing takes one opener away,
and the last close of a removed inode gives all its sectors back.
-/
namespace InodeVolume

variable {σ : Type} {size : Nat}

namespace Serving

open Program

variable [Allocator σ] {l : Lender σ size} {a : σ} {registered : List HandleId}
  {d : Image} {reg : Registry σ} {st : FileStore} {h : HandleId} {f : OpenFile}
  {A : Nat → Prop} {G : Image → Image → Prop}

/-- A registered handle is found for a sector if it has that inode open. -/
theorem any_iff (hc : Serving l a registered d reg st) (hf : st.opened h = some f)
    (sector : SectorId) :
    (reg.handle? h).any (fun handle => handle.inode.sector == sector) = true ↔
      f.inode = sector := by
  rw [hc.handle hf, Option.any_some]
  exact beq_iff_eq

/-- There is no handle for a sector that nobody has open. -/
theorem find?_eq_none (hc : Serving l a registered d reg st) {s : SectorId}
    (hs : ∀ h f, st.opened h = some f → f.inode ≠ s) : reg.find? ⟨a, registered⟩ s = none := by
  cases hfind : reg.find? ⟨a, registered⟩ s with
  | none => rfl
  | some k =>
    obtain ⟨hmem, hany⟩ := Registry.mem_of_find? hfind
    obtain ⟨f, hf⟩ := (hc.mem_registered k).1 hmem
    exact absurd ((hc.any_iff hf s).1 hany) (hs k f hf)

/-- What a registry says of a handle that is not open does not matter. -/
theorem unopened (hc : Serving l a registered d reg st) (hh : st.opened h = none) (x : Handle) :
    Serving l a registered d (reg.setHandle h x) st where
  laid := hc.laid
  tables := hc.tables
  lends := hc.lends
  mem_registered := hc.mem_registered
  handle {k g} hg := by
    have hk : k ≠ h := by
      rintro rfl
      simp [hh] at hg
    rw [Registry.handle?_setHandle_of_ne hk, hc.handle hg]
  live := hc.live
  openers_pos := hc.openers_pos
  single := hc.single

/-- A handle is taken out of the table. -/
theorem forgotten (hc : Serving l a registered d reg st) (h : HandleId) :
    Serving l a (registered.filter (· != h)) d
      (reg.setTable ⟨0⟩ ⟨a, registered.filter (· != h)⟩) (st.setOpened h none) where
  laid := ⟨hc.laid.represents, hc.laid.disjoint, hc.laid.held⟩
  tables := Registry.tables_setTable hc.tables
  lends := hc.lends
  mem_registered k := by
    simp only [List.mem_filter, bne_iff_ne, FileStore.opened_setOpened_none, hc.mem_registered,
      exists_and_left, and_comm]
  handle {k g} hg := by
    rw [Registry.handle?_setTable, hc.handle (FileStore.opened_setOpened_none.1 hg).2]
  live hg := hc.live (FileStore.opened_setOpened_none.1 hg).2
  openers_pos hg := hc.openers_pos (FileStore.opened_setOpened_none.1 hg).2
  single hg hg' :=
    hc.single (FileStore.opened_setOpened_none.1 hg).2 (FileStore.opened_setOpened_none.1 hg').2

/-- A new handle is registered for an inode that is not open. -/
theorem registers (hc : Serving l a registered d reg st) {s : SectorId} (hs : s ∈ st.live)
    (hnew : ∀ h f, st.opened h = some f → f.inode ≠ s) :
    st.opened ⟨reg.handles.size⟩ = none ∧
    Serving l a (registered ++ [⟨reg.handles.size⟩]) d
      ((reg.setTable ⟨0⟩ ⟨a, registered ++ [⟨reg.handles.size⟩]⟩).pushHandle
        ⟨⟨0⟩, .ofRecord s (recordAt d s)⟩)
      (st.setOpened ⟨reg.handles.size⟩ (some ⟨s, 1, false, 0⟩)) := by
  have hlt {k : HandleId} {g : OpenFile} (hg : st.opened k = some g) :
      k.index < reg.handles.size := Registry.lt_size_of_handle? (hc.handle hg)
  have hclosed : st.opened ⟨reg.handles.size⟩ = none := by
    rw [Option.eq_none_iff_forall_ne_some]
    intro g hg
    exact Nat.lt_irrefl _ (hlt hg)
  refine ⟨hclosed, ?_⟩
  exact {
    laid := ⟨hc.laid.represents, hc.laid.disjoint, hc.laid.held⟩
    tables := Registry.tables_setTable hc.tables
    lends := hc.lends
    mem_registered := by
      intro k
      rw [List.mem_append, hc.mem_registered, List.mem_singleton]
      by_cases hk : k = ⟨reg.handles.size⟩
      · subst hk
        simp
      · rw [st.opened_setOpened_of_ne hk]
        exact or_iff_left hk
    handle := by
      intro k g hg
      rcases FileStore.opened_setOpened_some.1 hg with ⟨rfl, rfl⟩ | ⟨-, hg⟩
      · exact (reg.setTable ⟨0⟩ ⟨a, registered ++ [⟨reg.handles.size⟩]⟩).handle?_pushHandle_self
      · rw [(reg.setTable _ _).handle?_pushHandle_of_lt (hlt hg),
          Registry.handle?_setTable, hc.handle hg]
    live := by
      intro k g hg
      rcases FileStore.opened_setOpened_some.1 hg with ⟨rfl, rfl⟩ | ⟨-, hg⟩
      · exact hs
      · exact hc.live hg
    openers_pos := by
      intro k g hg
      rcases FileStore.opened_setOpened_some.1 hg with ⟨rfl, rfl⟩ | ⟨-, hg⟩
      · exact Nat.one_pos
      · exact hc.openers_pos hg
    single := by
      intro k k' g g' hg hg' he
      rcases FileStore.opened_setOpened_some.1 hg with ⟨rfl, rfl⟩ | ⟨-, hg⟩
      · rcases FileStore.opened_setOpened_some.1 hg' with ⟨rfl, rfl⟩ | ⟨-, hg'⟩
        · rfl
        · exact absurd he.symm (hnew k' g' hg')
      · rcases FileStore.opened_setOpened_some.1 hg' with ⟨rfl, rfl⟩ | ⟨-, hg'⟩
        · exact absurd he (hnew k g hg)
        · exact hc.single hg hg' he }

/-- What is known of an open handle is put in its place. -/
theorem setInode_ensures (hc : Serving l a registered d reg st) (hf : st.opened h = some f)
    (f' : OpenFile) (hinode : f'.inode = f.inode) (hpos : 0 < f'.openers) :
    ((RegistryM.setInode h (f'.inodeOn d)).run reg).Ensures A G
      (fun x d' => Consistent l d' x.2 (st.setOpened h (some f'))) d := by
  rw [RegistryM.setInode_run (hc.handle hf)]
  exact ⟨a, registered, hc.modified hf hinode hpos⟩

theorem reopen_ensures (hc : Serving l a registered d reg st) (hf : st.opened h = some f) :
    (((Operation.reopen h).perform ⟨0⟩).run reg).Ensures A G (Answered l st (.reopen h)) d := by
  have hafter : st.after (.reopen h) () =
      st.setOpened h (some { f with openers := f.openers + 1 }) := FileStore.modifyOpened_eq hf _
  simp only [Operation.perform, RegistryM.reopen, StateT.run_bind,
    RegistryM.inode_run (hc.handle hf), bind_eq, done_bind]
  refine (hc.setInode_ensures hf { f with openers := f.openers + 1 } rfl
    (Nat.succ_pos _)).imp fun _ _ hx => ⟨trivial, ?_⟩
  rwa [hafter]

theorem remove_ensures (hc : Serving l a registered d reg st) (hf : st.opened h = some f) :
    (((Operation.remove h).perform ⟨0⟩).run reg).Ensures A G (Answered l st (.remove h)) d := by
  have hafter : st.after (.remove h) () = st.setOpened h (some { f with removed := true }) :=
    FileStore.modifyOpened_eq hf _
  have hpos := hc.openers_pos hf
  simp only [Operation.perform, RegistryM.remove, StateT.run_bind,
    RegistryM.inode_run (hc.handle hf), bind_eq, done_bind, ensures_bind]
  refine (hc.setInode_ensures hf { f with removed := true } rfl
    hpos).imp fun _ _ hx => ⟨trivial, ?_⟩
  rwa [hafter]

theorem denyWrite_ensures (hc : Serving l a registered d reg st) (hf : st.opened h = some f)
    (hle : f.denials + 1 ≤ f.openers) :
    (((Operation.denyWrite h).perform ⟨0⟩).run reg).Ensures A G (Answered l st (.denyWrite h))
      d := by
  have hafter : st.after (.denyWrite h) () =
      st.setOpened h (some { f with denials := f.denials + 1 }) := FileStore.modifyOpened_eq hf _
  have hpos := hc.openers_pos hf
  simp only [Operation.perform, RegistryM.denyWrite, StateT.run_bind,
    RegistryM.inode_run (hc.handle hf), bind_eq, done_bind, StateT.run_lift, OpenInode.denyWrite,
    ensures_bind, ensures_require]
  refine ⟨hle, (hc.setInode_ensures hf { f with denials := f.denials + 1 } rfl
    hpos).imp fun _ _ hx => ⟨trivial, ?_⟩⟩
  rwa [hafter]

theorem allowWrite_ensures (hc : Serving l a registered d reg st) (hf : st.opened h = some f)
    (hdenied : 0 < f.denials) (hle : f.denials ≤ f.openers) :
    (((Operation.allowWrite h).perform ⟨0⟩).run reg).Ensures A G (Answered l st (.allowWrite h))
      d := by
  have hafter : st.after (.allowWrite h) () =
      st.setOpened h (some { f with denials := f.denials - 1 }) := FileStore.modifyOpened_eq hf _
  have hpos := hc.openers_pos hf
  simp only [Operation.perform, RegistryM.allowWrite, StateT.run_bind,
    RegistryM.inode_run (hc.handle hf), bind_eq, done_bind, StateT.run_lift, OpenInode.allowWrite,
    ensures_bind, ensures_require]
  refine ⟨hdenied, hle, (hc.setInode_ensures hf { f with denials := f.denials - 1 } rfl
    hpos).imp fun _ _ hx => ⟨trivial, ?_⟩⟩
  rwa [hafter]

/-- A live inode that is not open gets a new handle, another one gets one more opener. -/
theorem openAt_ensures (hc : Serving l a registered d reg st) {s : SectorId} (hs : s ∈ st.live) :
    (((Operation.openAt s).perform ⟨0⟩).run reg).Ensures (Owned (footprint d s)) G
      (fun x d' => Answered l st (.openAt s) x d' ∧
        ∀ h, x.1 = .ok h → st.opened h = none → h = ⟨reg.handles.size⟩) d := by
  cases hfind : reg.find? ⟨a, registered⟩ s with
  | some h =>
    obtain ⟨hmem, hany⟩ := Registry.mem_of_find? hfind
    obtain ⟨f, hf⟩ := (hc.mem_registered h).1 hmem
    have hfs : f.inode = s := (hc.any_iff hf s).1 hany
    have hafter : st.after (.openAt s) (.ok h) =
        st.setOpened h (some { f with openers := f.openers + 1 }) := by
      rw [FileStore.after, FileStore.reopened, hf]
    have hadmits : st.Admits (.openAt s) (.ok h) := by
      rw [FileStore.Admits, hf]
      exact hfs
    have hset := hc.setInode_ensures (A := Owned (footprint d s)) (G := G) hf
      { f with openers := f.openers + 1 } rfl (Nat.succ_pos _)
    rw [RegistryM.setInode_run (hc.handle hf)] at hset
    rw [Operation.perform, RegistryM.openAt_run_found hc.table?_eq hfind (hc.handle hf)]
    refine ⟨⟨hadmits, ?_⟩, fun k hk hclosed => ?_⟩
    · rw [hafter]
      exact hset
    · obtain rfl := Except.ok.inj hk
      rw [hf] at hclosed
      cases hclosed
  | none =>
    have hnew (h : HandleId) (f : OpenFile) (hf : st.opened h = some f) : f.inode ≠ s := by
      intro hfs
      exact Registry.not_any_of_find? hfind ((hc.mem_registered h).2 ⟨f, hf⟩)
        ((hc.any_iff hf s).2 hfs)
    obtain ⟨hclosed, hserving⟩ := hc.registers hs hnew
    have hafter : st.after (.openAt s) (.ok ⟨reg.handles.size⟩) =
        st.setOpened ⟨reg.handles.size⟩ (some ⟨s, 1, false, 0⟩) := by
      rw [FileStore.after, FileStore.reopened, hclosed]
    have hadmits : st.Admits (.openAt s) (.ok ⟨reg.handles.size⟩) := by
      rw [FileStore.Admits, hclosed]
      exact hnew
    have hrecord : (decode (d s.index) : InodeRecord) = recordAt d s :=
      (recordAt_eq_decode d s).symm
    have hvalid : (recordAt d s).isValid = true := (hc.laid.represents hs).stored.valid
    rw [Operation.perform, RegistryM.openAt_run_new hc.table?_eq hfind, ensures_bind, ensures_load,
      hrecord, hvalid]
    refine ⟨owned_of_mem (self_mem_footprint d s),
      ⟨hadmits, a, registered ++ [⟨reg.handles.size⟩], ?_⟩, fun h hh _ => ?_⟩
    · rw [hafter]
      exact hserving
    · exact (Except.ok.inj hh).symm

/-- All that an inode has is given back, its record last. -/
theorem release_secures {d : Image} {s : SectorId} {ids : List SectorId} (hnodup : ids.Nodup)
    (hapart : s ∉ ids.toFinset) (hids : footprint d s = insert s ids.toFinset) :
    Secures Store.anyStep (do
      Store.releaseAll ids
      Store.release s) (fun _ _ F' => F' = ∅) d (footprint d s) := by
  have hids' : ∀ x ∈ ids, x ∉ ({s} : Finset SectorId) := by
    intro x hx hxs
    rw [Finset.mem_singleton] at hxs
    exact hapart (hxs ▸ List.mem_toFinset.2 hx)
  rw [bind_eq, secures_bind, hids, Finset.insert_eq]
  refine (Store.releaseAll_secures (Store.lenient_anyStep {s} d) hnodup hids').imp ?_
  rintro _ d' F' ⟨-, rfl⟩
  rw [secures_release]
  exact ⟨Finset.mem_singleton_self s, fun _ _ => ⟨fun _ _ => trivial, by simp⟩⟩

/-- The sectors of an inode that nobody has open are given back, its record last. -/
theorem dropped_ensures (hc : Serving l a registered d reg st) {s : SectorId}
    {ids : List SectorId} (hs : s ∈ st.live) (hnodup : ids.Nodup) (hapart : s ∉ ids.toFinset)
    (hids : footprint d s = insert s ids.toFinset)
    (hclosed : ∀ k g, st.opened k = some g → g.inode ≠ s) :
    ((RegistryM.served ⟨0⟩ do
      Store.releaseAll ids
      Store.release s).run reg).Ensures (· < size) (fun _ => Spares l (st.others d s) d)
      (fun x d' => Consistent l d' x.2 (st.dropFile s)) d := by
  refine hc.served_ensures (FileStore.used_eq_union hs) (hc.laid.disjoint_others hs)
    (release_secures hnodup hapart hids) ?_
  rintro ⟨⟩ a' d' F' - hl hd rfl
  have hnot : s ∉ (st.dropFile s).live := Finset.notMem_erase s st.live
  have hsame : (st.dropFile s).others d s = st.others d s := by
    rw [FileStore.others, FileStore.dropFile, Finset.erase_idem, FileStore.others]
  obtain ⟨hlaid, hothers⟩ := hc.laid.change s d' (st.dropFile s)
    (fun t ht _ => ⟨Finset.mem_of_mem_erase ht, rfl⟩) (Finset.Subset.refl _) (by rwa [hsame])
    fun h => absurd h hnot
  refine ⟨a', registered, hc.relaid hlaid ?_ rfl (fun k g hg => ?_) fun k g hg => ?_⟩
  · rwa [FileStore.used_eq_others hnot, hothers, hsame, ← Finset.empty_union (st.others d s)]
  · exact Finset.mem_erase.2 ⟨hclosed k g hg, hc.live hg⟩
  · exact recordAt_of_agree
      (hd.mono (FileStore.footprint_subset_others (hc.live hg) (hclosed k g hg)))

/-- Collecting the pointers of a live inode finds those of all slots. -/
theorem reachable_ensures (hc : Serving l a registered d reg st) {s : SectorId} (hs : s ∈ st.live)
    {Q : List SectorId → Image → Prop} (hQ : Q ((recordAt d s).pointerList d) d) :
    (recordAt d s).reachable.Ensures (Owned (footprint d s)) G Q d :=
  InodeRecord.reachable_ensures (hc.laid.represents hs).stored.index_owned hQ

/-- What is given back of an inode is found by way of the copy of its record. -/
theorem reclaim_run {x : Handle} (hreg : reg.handle? h = some x) :
    (RegistryM.reclaim ⟨0⟩ h).run reg = x.inode.record.reachable.bind fun ids =>
      (Disk.note (.reclaimed x.inode.sector ids.length)).bind fun _ =>
        (RegistryM.served ⟨0⟩ do
          Store.releaseAll ids
          Store.release x.inode.sector).run (reg.setHandle h
            { x with inode := { x.inode with record := x.inode.record.emptied } }) := by
  simp only [RegistryM.reclaim, StateT.run_bind, RegistryM.inode_run hreg, StateT.run_lift, bind_eq,
    pure_eq, done_bind, bind_bind]
  congr 1
  funext ids
  rw [RegistryM.setInode_run hreg]
  rfl

theorem reclaim_ensures (hc : Serving l a registered d reg st) {s : SectorId} {x : Handle}
    (hs : s ∈ st.live) (hx : x.inode.sector = s) (hrecord : x.inode.record = recordAt d s)
    (hclosed : ∀ k g, st.opened k = some g → g.inode ≠ s) (hh : st.opened h = none)
    (hreg : reg.handle? h = some x) :
    ((RegistryM.reclaim ⟨0⟩ h).run reg).Ensures (· < size) (fun _ => Spares l (st.others d s) d)
      (fun x d' => Consistent l d' x.2 (st.dropFile s)) d := by
  have hstored := (hc.laid.represents hs).stored
  rw [reclaim_run hreg, ensures_bind, hrecord, hx]
  refine hc.within hs (hc.reachable_ensures hs ?_)
  rw [ensures_bind, ensures_note]
  refine (hc.unopened hh _).dropped_ensures hs hstored.linked.nodup_pointerList ?_ ?_ hclosed
  · rw [InodeRecord.toFinset_pointerList]
    exact hstored.apart
  · rw [InodeRecord.toFinset_pointerList, footprint]

/-- The last close takes the handle out of the table; what is left to do is to reclaim the inode if
it is removed. -/
theorem close_last_run (hc : Serving l a registered d reg st) (hf : st.opened h = some f)
    (hlast : f.openers = 1) : (RegistryM.close ⟨0⟩ h).run reg =
      (Disk.note (.closed f.inode)).bind fun _ =>
        (if f.removed then RegistryM.reclaim ⟨0⟩ h else pure ()).run
          ((reg.setTable ⟨0⟩ ⟨a, registered.filter (· != h)⟩).setHandle h
            ⟨⟨0⟩, { f.inodeOn d with openers := f.openers - 1 }⟩) := by
  have hpos : 0 < (f.inodeOn d).openers := hc.openers_pos hf
  have hopeners : (f.inodeOn d).openers = 1 := hlast
  have htable : (reg.setHandle h
      ⟨⟨0⟩, { f.inodeOn d with openers := (f.inodeOn d).openers - 1 }⟩).table? ⟨0⟩ =
        some ⟨a, registered⟩ :=
    Registry.table?_setHandle.trans hc.table?_eq
  simp only [RegistryM.close, StateT.run_bind, RegistryM.inode_run (hc.handle hf), bind_eq,
    done_bind, RegistryM.require, StateT.run_lift, require, if_pos hpos, pure_eq,
    RegistryM.setInode_run (hc.handle hf), if_pos hopeners, RegistryM.unregister_run htable]
  rfl

/-- A close after which the inode stays touches nothing. -/
theorem close_stays_ensures (hc : Serving l a registered d reg st) (hf : st.opened h = some f)
    (hstays : ¬ (f.openers = 1 ∧ f.removed = true)) :
    (((Operation.close h).perform ⟨0⟩).run reg).Ensures A G (Answered l st (.close h)) d := by
  have hafter : st.after (.close h) () = _ := FileStore.closed_eq hf
  by_cases hlast : f.openers = 1
  · have hr : ¬ f.removed = true := fun hr => hstays ⟨hlast, hr⟩
    rw [if_pos hlast, if_neg hr] at hafter
    rw [Operation.perform, hc.close_last_run hf hlast, if_neg hr, ensures_bind, ensures_note]
    refine ⟨trivial, a, registered.filter (· != h), ?_⟩
    rw [hafter]
    exact (hc.forgotten h).unopened (st.opened_setOpened_self h none) _
  · rw [if_neg hlast] at hafter
    have hpos := hc.openers_pos hf
    have hmore : 0 < f.openers - 1 := by omega
    have hopeners : (f.inodeOn d).openers = f.openers := rfl
    simp only [Operation.perform, RegistryM.close, StateT.run_bind,
      RegistryM.inode_run (hc.handle hf), bind_eq, done_bind, ensures_bind, RegistryM.require,
      StateT.run_lift, pure_eq, ensures_require, ensures_done, hopeners]
    refine ⟨hpos, (hc.setInode_ensures hf { f with openers := f.openers - 1 } rfl
      hmore).imp fun _ _ hx => ?_⟩
    rw [if_neg hlast]
    exact ⟨trivial, hafter ▸ hx⟩

theorem close_ensures (hc : Serving l a registered d reg st) (hf : st.opened h = some f) :
    (((Operation.close h).perform ⟨0⟩).run reg).Ensures (· < size)
      (fun _ => Spares l (st.others d f.inode) d) (Answered l st (.close h)) d := by
  by_cases hgone : f.openers = 1 ∧ f.removed = true
  · obtain ⟨hlast, hr⟩ := hgone
    have hafter : st.after (.close h) () = _ := FileStore.closed_eq hf
    rw [if_pos hlast, if_pos hr] at hafter
    have hserving := (hc.forgotten h).unopened (st.opened_setOpened_self h none)
      ⟨⟨0⟩, { f.inodeOn d with openers := f.openers - 1 }⟩
    rw [Operation.perform, hc.close_last_run hf hlast, if_pos hr, ensures_bind, ensures_note]
    refine (hserving.reclaim_ensures (s := f.inode)
      (x := ⟨⟨0⟩, { f.inodeOn d with openers := f.openers - 1 }⟩) (hc.live hf) rfl rfl
      (fun k g hg he => ?_) (st.opened_setOpened_self h none) ?_).imp fun _ _ hx => ⟨trivial, ?_⟩
    · obtain ⟨hk, hg⟩ := FileStore.opened_setOpened_none.1 hg
      exact hk (hc.single hg hf he)
    · exact Registry.handle?_setHandle_self (Registry.handle?_setTable.trans (hc.handle hf))
    · rwa [hafter]
  · exact hc.close_stays_ensures hf hgone

end Serving

end InodeVolume

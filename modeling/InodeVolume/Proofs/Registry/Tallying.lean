import InodeVolume.Proofs.Inode.Discretion
import InodeVolume.Proofs.Registry.Recording

/-!
The notices of a table over a free map. Whatever is done with it, the calls that are noted on the
way are those by which its record grows.
-/
namespace InodeVolume

open Program

/-- Every handle grows by the allocator of the first table. -/
def Registry.AtHome {σ : Type} (reg : Registry σ) : Prop :=
  ∀ h entry, reg.handle? h = some entry → entry.home = ⟨0⟩

theorem Registry.AtHome.setHandle {σ : Type} {reg : Registry σ} (h : reg.AtHome) (k : HandleId)
    {entry : Handle} (hentry : entry.home = ⟨0⟩) : (reg.setHandle k entry).AtHome := by
  intro j x hx
  by_cases hj : j = k
  · subst hj
    have hlt := lt_size_of_handle? hx
    simp only [Registry.setHandle, Array.size_setIfInBounds] at hlt
    obtain rfl : entry = x := by simpa [handle?, Registry.setHandle, hlt] using hx
    exact hentry
  · rw [handle?_setHandle_of_ne hj] at hx
    exact h j x hx

theorem Registry.AtHome.pushHandle {σ : Type} {reg : Registry σ} (h : reg.AtHome) {entry : Handle}
    (hentry : entry.home = ⟨0⟩) : (reg.pushHandle entry).AtHome := by
  intro j x hx
  rw [handle?, Registry.pushHandle, Array.getElem?_push] at hx
  split at hx
  · obtain rfl := Option.some.inj hx
    exact hentry
  · exact h j x hx

namespace RegistryM

open Registry

variable {α β : Type} {reg : Registry (Recorded FreeMap)} {h : HandleId}

/-- However `p` ends that begins with this registry, the record has grown by what was noted. -/
def TalliesFrom (reg : Registry (Recorded FreeMap)) (p : RegistryM (Recorded FreeMap) α) : Prop :=
  ∀ t x reg', (p.run reg).Ends t (x, reg') → reg'.AtHome ∧ reg'.calls = reg.calls ++ t.noted

def Tallies (p : RegistryM (Recorded FreeMap) α) : Prop :=
  ∀ reg, reg.AtHome → TalliesFrom reg p

section Parts

theorem tallies_pure (x : α) : Tallies (pure x) := by
  intro reg hreg t y reg' h
  obtain ⟨rfl, hx⟩ := ends_done.1 h
  cases hx
  exact ⟨hreg, (List.append_nil _).symm⟩

theorem TalliesFrom.bind {p : RegistryM (Recorded FreeMap) α}
    {k : α → RegistryM (Recorded FreeMap) β} (hp : TalliesFrom reg p)
    (hk : ∀ x, Tallies (k x)) : TalliesFrom reg (p >>= k) := by
  intro t y reg' h
  rw [StateT.run_bind] at h
  obtain ⟨t₁, t₂, ⟨x, reg₁⟩, rfl, h₁, h₂⟩ := ends_bind.1 h
  obtain ⟨hhome, hcalls₁⟩ := hp t₁ x reg₁ h₁
  obtain ⟨hhome', hcalls₂⟩ := hk x reg₁ hhome t₂ y reg' h₂
  refine ⟨hhome', ?_⟩
  rw [hcalls₂, hcalls₁, Dialogue.noted_append, List.append_assoc]

theorem Tallies.bind {p : RegistryM (Recorded FreeMap) α}
    {k : α → RegistryM (Recorded FreeMap) β} (hp : Tallies p) (hk : ∀ x, Tallies (k x)) :
    Tallies (p >>= k) := fun reg hreg => (hp reg hreg).bind hk

/-- A discreet program that uses the disk alone. -/
theorem talliesFrom_lift {p : Program Disk α} {k : α → RegistryM (Recorded FreeMap) β}
    (hp : p.Discreet) (hk : ∀ x, TalliesFrom reg (k x)) :
    TalliesFrom reg (StateT.lift p >>= k) := by
  intro t x reg' h
  simp only [StateT.run_bind, StateT.run_lift, bind_eq, pure_eq, bind_bind, done_bind] at h
  obtain ⟨t₁, t₂, y, rfl, hends, hrest⟩ := ends_bind.1 h
  rw [Dialogue.noted_append, hp.noted_eq hends]
  exact hk y t₂ x reg' hrest

theorem tallies_lift {p : Program Disk α} (hp : p.Discreet) :
    Tallies (StateT.lift p : RegistryM (Recorded FreeMap) α) := by
  intro reg hreg
  rw [← bind_pure (StateT.lift p)]
  exact talliesFrom_lift hp fun x => tallies_pure x reg hreg

/-- A change of the registry alone, in which nothing is called. -/
theorem talliesFrom_modify {f : Registry (Recorded FreeMap) → Registry (Recorded FreeMap)}
    (hhome : (f reg).AtHome) (hcalls : (f reg).calls = reg.calls) :
    TalliesFrom reg (modify f : RegistryM (Recorded FreeMap) PUnit) := by
  intro t y reg' h
  obtain ⟨rfl, hx⟩ := ends_done.1 h
  cases hx
  exact ⟨hhome, hcalls.trans (List.append_nil _).symm⟩

/-- A table that is used is there. -/
theorem tallies_table {k : InodeTable (Recorded FreeMap) → RegistryM (Recorded FreeMap) β}
    (hk : ∀ reg e, reg.AtHome → reg.table? ⟨0⟩ = some e → TalliesFrom reg (k e)) :
    Tallies (table ⟨0⟩ >>= k) := by
  intro reg hreg t x reg' h
  have hrun : (table ⟨0⟩ >>= k).run reg =
      (getOrBreach (reg.table? ⟨0⟩) .unknownReference).bind fun e => (k e).run reg := by
    simp only [table, StateT.run_bind, StateT.run_lift, StateT.run_get, bind_eq, pure_eq,
      bind_bind, done_bind]
  rw [hrun] at h
  obtain ⟨_, t', e, rfl, hget, hrest⟩ := ends_bind.1 h
  obtain ⟨ht, rfl⟩ := ends_getOrBreach.1 hget
  exact hk reg e hreg ht t' x reg' hrest

/-- A handle that is used is there. -/
theorem tallies_handle {k : Handle → RegistryM (Recorded FreeMap) β}
    (hk : ∀ entry : Handle, entry.home = ⟨0⟩ → Tallies (k entry)) : Tallies (handle h >>= k) := by
  intro reg hreg t x reg' h'
  have hrun : (handle h >>= k).run reg =
      (getOrBreach (reg.handle? h) .unknownReference).bind fun entry => (k entry).run reg := by
    simp only [handle, StateT.run_bind, StateT.run_lift, StateT.run_get, bind_eq, pure_eq,
      bind_bind, done_bind]
  rw [hrun] at h'
  obtain ⟨_, t', entry, rfl, hget, hrest⟩ := ends_bind.1 h'
  obtain ⟨hh, rfl⟩ := ends_getOrBreach.1 hget
  exact hk entry (hreg h entry hh) reg hreg t' x reg' hrest

theorem tallies_inode (h : HandleId) : Tallies (inode h : RegistryM (Recorded FreeMap) _) :=
  tallies_handle fun _ _ => tallies_pure _

theorem tallies_setInode (h : HandleId) (f : OpenInode) :
    Tallies (setInode h f : RegistryM (Recorded FreeMap) Unit) :=
  tallies_handle fun _ hhome _ hreg => talliesFrom_modify (hreg.setHandle h hhome) rfl

theorem tallies_unregister (h : HandleId) :
    Tallies (unregister ⟨0⟩ h : RegistryM (Recorded FreeMap) Unit) :=
  tallies_table fun _ _ hreg ht =>
    talliesFrom_modify hreg ((calls_setTable ht).trans (calls_eq ht).symm)

/-- What is done with an open inode. -/
theorem tallies_with {p : OpenInode → Program Disk α} (h : HandleId)
    (hp : ∀ f, (p f).Discreet) :
    Tallies (do StateT.lift (p (← inode h)) : RegistryM (Recorded FreeMap) α) :=
  (tallies_inode h).bind fun f => tallies_lift (hp f)

theorem tallies_served {p : Program Store α} (hp : p.DiscreetOnStore) :
    Tallies (served ⟨0⟩ p : RegistryM (Recorded FreeMap) α) := by
  refine tallies_table fun reg e hreg ht t x reg' h => ?_
  obtain ⟨t₁, _, ⟨⟨y, r⟩, reg₁⟩, rfl, hlift, hrest⟩ := ends_bind.1 h
  obtain rfl := lift_ends hlift
  obtain ⟨t₁, t₂, _, rfl, hserve, hdone⟩ := ends_bind.1 hlift
  obtain ⟨rfl, hx⟩ := ends_done.1 hdone
  cases hx
  obtain ⟨rfl, hx⟩ := ends_done.1 hrest
  cases hx
  refine ⟨hreg, (calls_setTable ht).trans ?_⟩
  rw [List.append_nil, List.append_nil, calls_eq ht]
  exact Recorded.calls_noted hp hserve

theorem tallies_transact {p : OpenInode → Program Store (α × OpenInode)} (h : HandleId)
    (hp : ∀ f, (p f).DiscreetOnStore) :
    Tallies (transact h p : RegistryM (Recorded FreeMap) α) := by
  refine tallies_handle fun entry hhome => ?_
  rw [hhome]
  exact (tallies_served (hp entry.inode)).bind fun x =>
    (tallies_setInode h x.2).bind fun _ => tallies_pure _

theorem tallies_openAt (s : SectorId) :
    Tallies (openAt ⟨0⟩ s : RegistryM (Recorded FreeMap) _) := by
  refine tallies_table fun reg e hreg ht t x reg' hends => ?_
  have hget : (get : RegistryM (Recorded FreeMap) (Registry (Recorded FreeMap))).run reg =
      .done (reg, reg) := rfl
  simp only [StateT.run_bind, hget, bind_eq, done_bind] at hends
  split at hends
  · rename_i h _
    exact ((tallies_inode h).bind fun f => (tallies_setInode h f.reopened).bind fun _ =>
      tallies_pure _) reg hreg t x reg' hends
  · refine talliesFrom_lift (Disk.discreet_load s) (fun record => ?_) t x reg' hends
    split
    · exact ((tallies_lift (Disk.discreet_note rfl)).bind fun _ => tallies_pure _) reg hreg
    · -- The handle is entered in the table and in the registry at once.
      intro t x reg' hends
      refine (talliesFrom_modify (f := fun _ =>
        (reg.setTable ⟨0⟩ { e with registered := e.registered ++ [⟨reg.handles.size⟩] }).pushHandle
          ⟨⟨0⟩, .ofRecord s record⟩) ?_ ?_).bind (fun _ =>
        (tallies_lift (Disk.discreet_note rfl)).bind fun _ => tallies_pure _) t x reg' hends
      · exact hreg.pushHandle rfl
      · exact (calls_setTable ht).trans (calls_eq ht).symm

theorem tallies_reclaim (h : HandleId) :
    Tallies (reclaim ⟨0⟩ h : RegistryM (Recorded FreeMap) Unit) :=
  (tallies_inode h).bind fun f => (tallies_lift f.record.discreet_reachable).bind fun ids =>
    (tallies_setInode h _).bind fun _ => (tallies_lift (Disk.discreet_note rfl)).bind fun _ =>
      tallies_served ((Store.discreet_releaseAll ids).bind fun _ => Store.discreet_release f.sector)

theorem tallies_close (h : HandleId) :
    Tallies (close ⟨0⟩ h : RegistryM (Recorded FreeMap) Unit) := by
  refine (tallies_inode h).bind fun f => (tallies_lift (asks_require _ _)).bind fun _ =>
    (tallies_setInode h _).bind fun _ => ?_
  split
  · refine (tallies_unregister h).bind fun _ => (tallies_lift (Disk.discreet_note rfl)).bind
      fun _ => ?_
    split
    · exact tallies_reclaim h
    · exact tallies_pure _
  · exact tallies_pure _

end Parts

/-- Every operation notes the calls that it makes, and no others. -/
theorem tallies_perform (o : Operation) :
    Tallies (o.perform ⟨0⟩ : RegistryM (Recorded FreeMap) o.Reply) := by
  cases o with
  | create length kind => exact tallies_served (Store.discreet_create length kind)
  | createAt s length kind => exact tallies_served (Store.discreet_createAt s length kind)
  | openAt s => exact tallies_openAt s
  | reopen h => exact (tallies_inode h).bind fun f => tallies_setInode h f.reopened
  | close h => exact tallies_close h
  | remove h =>
    exact (tallies_inode h).bind fun f => (tallies_setInode h f.markedRemoved).bind fun _ =>
      tallies_lift (Disk.discreet_note rfl)
  | denyWrite h =>
    exact (tallies_inode h).bind fun f => (tallies_lift f.discreet_denyWrite).bind fun g =>
      tallies_setInode h g
  | allowWrite h =>
    exact (tallies_inode h).bind fun f => (tallies_lift f.discreet_allowWrite).bind fun g =>
      tallies_setInode h g
  | sectorOf h position => exact tallies_with h fun f => f.record.discreet_sectorOf position
  | readAt h offset length => exact tallies_with h fun f => f.discreet_readAt offset length
  | writeAt h offset buffer =>
    exact tallies_transact (p := fun f => f.writeAt offset buffer) h fun f =>
      f.discreet_writeAt offset buffer
  | extend h target =>
    exact tallies_transact (p := fun f => f.extend target) h fun f => f.discreet_extend target
  | status h => exact (tallies_inode h).bind fun _ => tallies_pure _
  | allocate => exact tallies_served Store.discreet_allocate
  | allocateMany count => exact tallies_served (Store.discreet_allocateMany count)
  | release s => exact tallies_served (Store.discreet_release s)

end RegistryM

end InodeVolume

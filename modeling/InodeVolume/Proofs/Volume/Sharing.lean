import InodeVolume.Proofs.Registry.Sharing
import InodeVolume.Proofs.Volume.Runs

/-!
Machines on which inodes are opened and closed by many openers, over any device and any allocator.
At every point the table has one handle for each sector that is open, whoever opened it.
-/
namespace InodeVolume

/-- The handles that a table has registered for a sector. -/
def Registry.registeredOn {σ : Type} (reg : Registry σ) (table : InodeTable σ) (s : SectorId) :
    List HandleId :=
  table.registered.filter fun h => (reg.handle? h).any fun handle => handle.inode.sector == s

namespace Registry.SharedBy

variable {σ : Type} {reg : Registry σ} {a : σ} {registered : List HandleId}
  {openers : List Opener} {o : Opener} {s : SectorId}

theorem registeredOn_of_mem (hc : reg.SharedBy a registered openers) (ho : o ∈ openers) :
    reg.registeredOn ⟨a, registered⟩ o.sector = [o.handle] := by
  have hmem : o.handle ∈ registered := (hc.mem_registered _).2 ⟨o, ho, rfl⟩
  have honly : ∀ h ∈ registered, ((reg.handle? h).any fun handle =>
      handle.inode.sector == o.sector) = (h == o.handle) := by
    intro h hh
    obtain ⟨p, hp, rfl⟩ := (hc.mem_registered h).1 hh
    rw [Bool.eq_iff_iff, hc.any_iff hp, beq_iff_eq]
    exact ⟨hc.single p hp o ho, hc.eq_of_handle_eq hp ho⟩
  rw [registeredOn, List.filter_congr honly, List.filter_beq,
    List.count_eq_one_of_mem hc.nodup hmem, List.replicate_one]

theorem registeredOn_of_forall (hc : reg.SharedBy a registered openers)
    (hs : ∀ o ∈ openers, o.sector ≠ s) : reg.registeredOn ⟨a, registered⟩ s = [] := by
  refine List.filter_eq_nil_iff.2 fun h hh => ?_
  obtain ⟨o, ho, rfl⟩ := (hc.mem_registered h).1 hh
  exact fun hany => hs o ho ((hc.any_iff ho s).1 hany)

/-- There are as many handles as sectors that are open. -/
theorem length_registered (hc : reg.SharedBy a registered openers) :
    registered.length = (openers.map Opener.sector).toFinset.card := by
  have hopener : ∀ h ∈ registered.toFinset, ∃ o ∈ openers, o.handle = h := fun h hh =>
    (hc.mem_registered h).1 (List.mem_toFinset.1 hh)
  choose opener hmem hhandle using hopener
  rw [← List.toFinset_card_of_nodup hc.nodup]
  refine Finset.card_bij (fun h hh => (opener h hh).sector) (fun h hh => ?_)
    (fun h hh k hk he => ?_) fun s hs => ?_
  · exact List.mem_toFinset.2 (List.mem_map_of_mem (hmem h hh))
  · rw [← hhandle h hh, ← hhandle k hk, hc.single _ (hmem h hh) _ (hmem k hk) he]
  · obtain ⟨o, ho, rfl⟩ := List.mem_map.1 (List.mem_toFinset.1 hs)
    have hh := List.mem_toFinset.2 ((hc.mem_registered o.handle).2 ⟨o, ho, rfl⟩)
    exact ⟨o.handle, hh, hc.eq_of_handle_eq (hmem _ hh) ho (hhandle _ hh)⟩

end Registry.SharedBy

namespace Machine

open Program LawfulBlockDevice

variable {δ σ : Type} [BlockDevice δ] [Allocator σ] {m m' m₀ : Machine δ σ}
  {openers : List Opener}

/-- From one machine to another by openers, each of which may open further inodes, and reopens and
closes what it has open. In between anything may be done that neither opens nor closes. Ends with
the openers that there are. -/
inductive Shares (m₀ : Machine δ σ) : List Opener → Machine δ σ → Prop
  | start : Shares m₀ [] m₀
  | opened {openers : List Opener} {m m' : Machine δ σ} {s : SectorId} {h : HandleId} :
    Shares m₀ openers m → m.Replies (.openAt s) (.ok h) m' → Shares m₀ (⟨s, h⟩ :: openers) m'
  | failed {openers : List Opener} {m m' : Machine δ σ} {s : SectorId} {e : VolumeError} :
    Shares m₀ openers m → m.Replies (.openAt s) (.error e) m' → Shares m₀ openers m'
  | reopened {openers : List Opener} {m m' : Machine δ σ} {o : Opener} :
    Shares m₀ openers m → o ∈ openers → m.Replies (.reopen o.handle) () m' →
      Shares m₀ (o :: openers) m'
  | closed {openers : List Opener} {m m' : Machine δ σ} {o : Opener} :
    Shares m₀ openers m → o ∈ openers → m.Replies (.close o.handle) () m' →
      Shares m₀ (openers.erase o) m'
  | used {openers : List Opener} {m m' : Machine δ σ} {o : Operation} {x : o.Reply} :
    Shares m₀ openers m → o.IsUse → m.Replies o x m' → Shares m₀ openers m'

/-- What a reply shows of the registry. -/
theorem Replies.of_yields {o : Operation} {x : o.Reply} {R : o.Reply × Registry σ → Prop}
    (hx : m.Replies o x m') (hR : ((o.perform ⟨0⟩).run m.registry).Yields R) :
    R (x, m'.registry) := by
  obtain ⟨journal, hrun⟩ := hx
  obtain ⟨t, hends⟩ := exists_ends hrun
  exact hR.of_ends hends

theorem Shares.sharedBy {d : δ} {a : σ} (h : Shares ⟨d, .over a⟩ openers m) :
    ∃ a' registered, m.registry.SharedBy a' registered openers := by
  induction h with
  | start => exact ⟨a, [], .fresh a⟩
  | opened _ hx ih =>
    obtain ⟨a', registered, hc⟩ := ih
    exact ⟨a', hx.of_yields (RegistryM.openAt_shares hc _)⟩
  | @failed openers m m' s e _ hx ih =>
    obtain ⟨a', registered, hc⟩ := ih
    obtain ⟨-, hsame⟩ := hx.of_yields (RegistryM.openAt_shares hc s)
    have hsame : m'.registry = m.registry := hsame
    rw [hsame]
    exact ⟨a', registered, hc⟩
  | @reopened openers m m' o _ ho hx ih =>
    obtain ⟨a', registered, hc⟩ := ih
    obtain ⟨f, hf, -, -⟩ := hc.handle o ho
    obtain ⟨journal, hrun⟩ := hx
    rw [attempt, Operation.perform, RegistryM.reopen_run hf] at hrun
    cases m'
    cases hrun
    exact ⟨a', registered, hc.joined ho hf⟩
  | closed _ ho hx ih =>
    obtain ⟨a', registered, hc⟩ := ih
    exact hx.of_yields (RegistryM.close_shares hc ho)
  | used _ ho hx ih =>
    obtain ⟨a', registered, hc⟩ := ih
    obtain ⟨a'', hc'⟩ := hc.retained (hx.of_yields (RegistryM.perform_retains ho))
    exact ⟨a'', registered, hc'⟩

/-- An open of a sector that nobody has open makes a new handle, or changes nothing. -/
theorem Replies.openAt_closed {a : σ} {registered : List HandleId} {s : SectorId}
    {x : Except VolumeError HandleId} (hc : m.registry.SharedBy a registered openers)
    (hs : ∀ o ∈ openers, o.sector ≠ s) (hx : m.Replies (.openAt s) x m') : match x with
      | .ok h => m.registry.handle? h = none ∧
        ∃ record, m'.registry.handle? h = some ⟨⟨0⟩, .ofRecord s record⟩
      | .error e => e = .badMagic s ∧ m' = m := by
  obtain ⟨journal, hrun⟩ := hx
  obtain ⟨device, registry⟩ := m
  obtain ⟨device', registry'⟩ := m'
  rw [attempt, Operation.perform, RegistryM.openAt_run_new hc.table?_eq (hc.find?_eq_none hs)]
    at hrun
  obtain ⟨record, w, hload, hrest⟩ := run_bind_ok hrun
  obtain rfl := world_eq_of_load hload
  split at hrest
  · cases hrest
    exact ⟨rfl, rfl⟩
  · cases hrest
    exact ⟨Array.getElem?_size, record, Registry.handle?_pushHandle_self _⟩

theorem attempt_openAt_again {a : σ} {registered : List HandleId} {o : Opener} {f : OpenInode}
    (hc : m.registry.SharedBy a registered openers) (ho : o ∈ openers)
    (hf : m.registry.handle? o.handle = some ⟨⟨0⟩, f⟩) : m.attempt (.openAt o.sector) =
      (.ok (.ok o.handle, m.registry.setHandle o.handle ⟨⟨0⟩, f.reopened⟩), ⟨m.device, #[]⟩) := by
  rw [attempt, Operation.perform,
    RegistryM.openAt_run_found hc.table?_eq (hc.find?_eq_some ho) hf]
  rfl

theorem attempt_reopen {h : HandleId} {f : OpenInode}
    (hf : m.registry.handle? h = some ⟨⟨0⟩, f⟩) : m.attempt (.reopen h) =
      (.ok ((), m.registry.setHandle h ⟨⟨0⟩, f.reopened⟩), ⟨m.device, #[]⟩) := by
  rw [attempt, Operation.perform, RegistryM.reopen_run hf]
  rfl

/-- Each sector that is open has one handle, which all of its openers share. -/
structure HandlesShared (m : Machine δ σ) (openers : List Opener) : Prop where
  /-- The table has the handle of the openers for a sector that is open, and none for any other. -/
  registered : ∃ table, m.registry.table? ⟨0⟩ = some table ∧
    (∀ o ∈ openers, m.registry.registeredOn table o.sector = [o.handle]) ∧
    ∀ s, (∀ o ∈ openers, o.sector ≠ s) → m.registry.registeredOn table s = []
  openCount : (RegistryM.openCount ⟨0⟩).run m.registry =
    .done ((openers.map Opener.sector).toFinset.card, m.registry)
  /-- The handle counts its openers. Opening the sector again and reopening the handle do the same:
  they count one opener more, and do nothing else. -/
  counted : ∀ o ∈ openers, ∃ f, m.registry.handle? o.handle = some ⟨⟨0⟩, f⟩ ∧
    f.sector = o.sector ∧ f.openers = Opener.count openers o.sector ∧
    m.attempt (.openAt o.sector) = (.ok (.ok o.handle,
      m.registry.setHandle o.handle ⟨⟨0⟩, { f with openers := f.openers + 1 }⟩), ⟨m.device, #[]⟩) ∧
    m.attempt (.reopen o.handle) = (.ok ((),
      m.registry.setHandle o.handle ⟨⟨0⟩, { f with openers := f.openers + 1 }⟩), ⟨m.device, #[]⟩)
  failed : ∀ s e m', m.Replies (.openAt s) (.error e) m' → e = .badMagic s ∧ m' = m
  /-- The first opener of a sector gets a handle that there has never been. -/
  first : ∀ s h m', (∀ o ∈ openers, o.sector ≠ s) → m.Replies (.openAt s) (.ok h) m' →
    m.registry.handle? h = none ∧ ∃ f, m'.registry.handle? h = some ⟨⟨0⟩, f⟩ ∧ f.sector = s ∧
      f.openers = 1 ∧ f.removed = false ∧ f.denials = 0

/-- Over any device and any allocator, in every run in which inodes are opened, reopened and closed,
and used in between in any way. -/
theorem Shares.handlesShared {d : δ} {a : σ} (h : Shares ⟨d, .over a⟩ openers m) :
    m.HandlesShared openers := by
  obtain ⟨a', registered, hc⟩ := h.sharedBy
  refine ⟨⟨⟨a', registered⟩, hc.table?_eq, fun o ho => hc.registeredOn_of_mem ho,
    fun s hs => hc.registeredOn_of_forall hs⟩, ?_, fun o ho => ?_, fun s e m' hx => ?_,
    fun s k m' hs hx => ?_⟩
  · rw [RegistryM.openCount, StateT.run_bind, RegistryM.table_run hc.table?_eq, bind_eq, done_bind,
      ← hc.length_registered]
    rfl
  · obtain ⟨f, hf, hsector, hopeners⟩ := hc.handle o ho
    exact ⟨f, hf, hsector, hopeners, attempt_openAt_again hc ho hf, attempt_reopen hf⟩
  · by_cases hs : ∃ o ∈ openers, o.sector = s
    · obtain ⟨o, ho, rfl⟩ := hs
      obtain ⟨f, hf, -⟩ := hc.handle o ho
      obtain ⟨journal, hrun⟩ := hx
      rw [attempt_openAt_again hc ho hf] at hrun
      cases hrun
    · exact hx.openAt_closed hc fun o ho he => hs ⟨o, ho, he⟩
  · obtain ⟨hnone, record, hf⟩ := hx.openAt_closed hc hs
    exact ⟨hnone, _, hf, rfl, rfl, rfl, rfl⟩

/-- The root directory of a new volume is opened and reopened. -/
theorem handlesShared_root_directory :
    ∃ (d : SectorArray) (fm : FreeMap) (root : SectorId) (h : HandleId)
      (m : Machine SectorArray FreeMap),
      Shares ⟨d, .over fm⟩ [⟨root, h⟩, ⟨root, h⟩] m ∧ m.HandlesShared [⟨root, h⟩, ⟨root, h⟩] := by
  have hsize : LawfulBlockDevice.size (SectorArray.filled 8 7) = 8 := Array.size_replicate
  obtain ⟨v, w, -, hm, hinUse⟩ := exists_format 8 (d := SectorArray.filled 8 7)
    (Nat.le_of_eq hsize.symm) (by decide)
  have hlegal : (FileStore.initial v.root).Legal (.openAt v.root) :=
    Finset.mem_singleton_self v.root
  obtain ⟨x, m₁, hm₁, hadmits, h₁⟩ := hinUse.attempt_ok hlegal rfl
  cases x with
  | error e => exact hadmits.elim
  | ok h =>
    have hopened : Shares ⟨w.device, .over v.freeMap⟩ [⟨v.root, h⟩] m₁ := .opened .start hm₁
    have ho : ⟨v.root, h⟩ ∈ [Opener.mk v.root h] := List.mem_singleton_self _
    obtain ⟨f, -, -, -, -, hreopen⟩ := hopened.handlesShared.counted _ ho
    have hreplies : Replies m₁ (.reopen h) () ⟨m₁.device, _⟩ := ⟨_, hreopen⟩
    have hreopened := hopened.reopened ho hreplies
    exact ⟨w.device, v.freeMap, v.root, h, _, hreopened, hreopened.handlesShared⟩

end Machine

end InodeVolume

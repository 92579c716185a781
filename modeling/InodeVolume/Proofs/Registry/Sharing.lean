import InodeVolume.Proofs.Registry.Usage

/-!
How the openers of an inode share one handle. A ledger has the openers that there are, each with the
sector that it opened and the handle that it was given. The registry agrees with the ledger: the
handles that the table has registered are those of the openers, one for each sector, and each counts
its openers. Opening and closing change both alike; whatever else is done changes neither.
-/
namespace InodeVolume

/-- Somebody who has the inode on a sector open by a handle. -/
structure Opener where
  sector : SectorId
  handle : HandleId
  deriving DecidableEq

/-- How many have the sector open. -/
def Opener.count (openers : List Opener) (s : SectorId) : Nat :=
  openers.countP fun o => o.sector = s

namespace Registry

variable {σ : Type} {reg reg' : Registry σ} {a : σ} {registered : List HandleId}
  {openers : List Opener} {h : HandleId} {x : Handle} {t : TableId} {e : InodeTable σ}
  {f g : OpenInode} {o : Opener} {s : SectorId}

/-- The only table has the same handles registered, and each handle keeps its sector and its
openers. -/
structure Retains (reg reg' : Registry σ) : Prop where
  tables : ∀ a registered, reg.tables = #[⟨a, registered⟩] → ∃ a', reg'.tables = #[⟨a', registered⟩]
  handle : ∀ h x, reg.handle? h = some x → ∃ f, reg'.handle? h = some ⟨x.home, f⟩ ∧
    f.sector = x.inode.sector ∧ f.openers = x.inode.openers

/-- What neither opens nor closes leaves the handles and their openers as they are. -/
theorem Turned.retains {o : Operation} {y : o.Reply} (h : reg.Turned o y reg') (ho : o.IsUse) :
    reg.Retains reg' where
  tables := h.tables ho
  handle k x hx := by
    by_cases hk : o.turned y = some k
    · obtain ⟨g, hg, hturns⟩ := h.turns k x hk hx
      refine ⟨g, hg, ?_⟩
      cases o with
      | openAt s => exact ho.elim
      | reopen h => exact ho.elim
      | close h => exact ho.elim
      | remove h =>
        have hmarked : x.inode.markedRemoved.SameUse g := hturns
        exact ⟨hmarked.sector_eq, hmarked.openers_eq⟩
      | denyWrite h => exact ⟨hturns.2.sector_eq, hturns.2.openers_eq⟩
      | allowWrite h => exact ⟨hturns.2.2.sector_eq, hturns.2.2.openers_eq⟩
      | _ => cases hk
    · obtain ⟨g, hg, hsame⟩ := h.keeps k x hk hx
      exact ⟨g, hg, hsame.sector_eq, hsame.openers_eq⟩

/-- The registry agrees with the ledger. -/
structure SharedBy (reg : Registry σ) (a : σ) (registered : List HandleId)
    (openers : List Opener) : Prop where
  tables : reg.tables = #[⟨a, registered⟩]
  nodup : registered.Nodup
  mem_registered : ∀ h, h ∈ registered ↔ ∃ o ∈ openers, o.handle = h
  handle : ∀ o ∈ openers, ∃ f, reg.handle? o.handle = some ⟨⟨0⟩, f⟩ ∧ f.sector = o.sector ∧
    f.openers = Opener.count openers o.sector
  single : ∀ o ∈ openers, ∀ o' ∈ openers, o.sector = o'.sector → o.handle = o'.handle

namespace SharedBy

theorem fresh (a : σ) : (Registry.mk #[⟨a, []⟩] #[]).SharedBy a [] [] where
  tables := rfl
  nodup := List.nodup_nil
  mem_registered := fun h => by simp
  handle := nofun
  single := nofun

theorem table?_eq (hc : reg.SharedBy a registered openers) :
    reg.table? ⟨0⟩ = some ⟨a, registered⟩ := table?_of_tables hc.tables

theorem sector_eq (hc : reg.SharedBy a registered openers) (ho : o ∈ openers)
    (hx : reg.handle? o.handle = some x) : x.inode.sector = o.sector := by
  obtain ⟨f, hf, hsector, -⟩ := hc.handle o ho
  obtain rfl := Option.some.inj (hf.symm.trans hx)
  exact hsector

/-- Openers by one handle have the same sector open. -/
theorem eq_of_handle_eq (hc : reg.SharedBy a registered openers) (ho : o ∈ openers) {o' : Opener}
    (ho' : o' ∈ openers) (he : o.handle = o'.handle) : o.sector = o'.sector := by
  obtain ⟨f, hf, hsector, -⟩ := hc.handle o ho
  exact hsector.symm.trans (hc.sector_eq ho' (he ▸ hf))

theorem any_iff (hc : reg.SharedBy a registered openers) (ho : o ∈ openers) (s : SectorId) :
    (reg.handle? o.handle).any (fun handle => handle.inode.sector == s) = true ↔
      o.sector = s := by
  obtain ⟨f, hf, hsector, -⟩ := hc.handle o ho
  rw [hf, Option.any_some, beq_iff_eq, hsector]

theorem find?_eq_some (hc : reg.SharedBy a registered openers) (ho : o ∈ openers) :
    reg.find? ⟨a, registered⟩ o.sector = some o.handle := by
  cases hfind : reg.find? ⟨a, registered⟩ o.sector with
  | none =>
    have hmem := (hc.mem_registered o.handle).2 ⟨o, ho, rfl⟩
    exact absurd ((hc.any_iff ho o.sector).2 rfl) (not_any_of_find? hfind hmem)
  | some h =>
    obtain ⟨hmem, hany⟩ := mem_of_find? hfind
    obtain ⟨o', ho', rfl⟩ := (hc.mem_registered h).1 hmem
    rw [hc.single o' ho' o ho ((hc.any_iff ho' o.sector).1 hany)]

theorem find?_eq_none (hc : reg.SharedBy a registered openers)
    (hs : ∀ o ∈ openers, o.sector ≠ s) : reg.find? ⟨a, registered⟩ s = none := by
  cases hfind : reg.find? ⟨a, registered⟩ s with
  | none => rfl
  | some h =>
    obtain ⟨hmem, hany⟩ := mem_of_find? hfind
    obtain ⟨o, ho, rfl⟩ := (hc.mem_registered h).1 hmem
    exact absurd ((hc.any_iff ho s).1 hany) (hs o ho)

theorem retained (hc : reg.SharedBy a registered openers) (hr : reg.Retains reg') :
    ∃ a', reg'.SharedBy a' registered openers := by
  obtain ⟨a', ht⟩ := hr.tables a registered hc.tables
  refine ⟨a', ht, hc.nodup, hc.mem_registered, fun o ho => ?_, hc.single⟩
  obtain ⟨f, hf, hsector, hopeners⟩ := hc.handle o ho
  obtain ⟨g, hg, hsector', hopeners'⟩ := hr.handle o.handle _ hf
  exact ⟨g, hg, hsector'.trans hsector, hopeners'.trans hopeners⟩

/-- One opener more. -/
theorem joined (hc : reg.SharedBy a registered openers) (ho : o ∈ openers)
    (hf : reg.handle? o.handle = some ⟨⟨0⟩, f⟩) :
    (reg.setHandle o.handle ⟨⟨0⟩, f.reopened⟩).SharedBy a registered (o :: openers) where
  tables := hc.tables
  nodup := hc.nodup
  mem_registered h := by
    rw [hc.mem_registered, List.exists_mem_cons_iff]
    refine ⟨Or.inr, Or.rec (fun hh => ⟨o, ho, hh⟩) id⟩
  handle o' ho' := by
    have ho' : o' ∈ openers := by
      rcases List.mem_cons.1 ho' with rfl | ho'
      · exact ho
      · exact ho'
    obtain ⟨g, hg, hsector, hopeners⟩ := hc.handle o' ho'
    by_cases hs : o.sector = o'.sector
    · have hhandle := hc.single o ho o' ho' hs
      rw [hhandle] at hf ⊢
      obtain rfl := (Handle.mk.inj (Option.some.inj (hg.symm.trans hf))).2
      refine ⟨_, handle?_setHandle_self hg, hsector, ?_⟩
      rw [OpenInode.reopened, hopeners, Opener.count, Opener.count,
        List.countP_cons_of_pos (by simpa using hs)]
    · have hne : o'.handle ≠ o.handle := fun he => hs (hc.eq_of_handle_eq ho ho' he.symm)
      refine ⟨g, (handle?_setHandle_of_ne hne).trans hg, hsector, ?_⟩
      rw [hopeners, Opener.count, Opener.count, List.countP_cons_of_neg (by simpa using hs)]
  single := by
    have hmem {p : Opener} (hp : p ∈ o :: openers) : p ∈ openers := by
      rcases List.mem_cons.1 hp with rfl | hp
      · exact ho
      · exact hp
    exact fun p hp p' hp' => hc.single p (hmem hp) p' (hmem hp')

/-- The first opener of a sector, by a handle that there has never been. -/
theorem added (hc : reg.SharedBy a registered openers) (hs : ∀ o ∈ openers, o.sector ≠ s)
    (r : InodeRecord) :
    ((reg.setTable ⟨0⟩ ⟨a, registered ++ [⟨reg.handles.size⟩]⟩).pushHandle
      ⟨⟨0⟩, .ofRecord s r⟩).SharedBy a (registered ++ [⟨reg.handles.size⟩])
        (⟨s, ⟨reg.handles.size⟩⟩ :: openers) := by
  have hlt {o : Opener} (ho : o ∈ openers) : o.handle.index < reg.handles.size := by
    obtain ⟨f, hf, -⟩ := hc.handle o ho
    exact lt_size_of_handle? hf
  have hnew {o : Opener} (ho : o ∈ openers) : o.handle ≠ ⟨reg.handles.size⟩ := by
    intro he
    have hindex := hlt ho
    rw [he] at hindex
    exact Nat.lt_irrefl _ hindex
  refine ⟨tables_setTable hc.tables, ?_, fun h => ?_, fun o ho => ?_, fun o ho o' ho' he => ?_⟩
  · refine List.nodup_append'.2 ⟨hc.nodup, List.nodup_singleton _, ?_⟩
    rw [List.disjoint_singleton, hc.mem_registered]
    rintro ⟨o, ho, he⟩
    exact hnew ho he
  · rw [List.mem_append, hc.mem_registered, List.mem_singleton, List.exists_mem_cons_iff, or_comm,
      eq_comm]
  · rcases List.mem_cons.1 ho with rfl | ho
    · refine ⟨.ofRecord s r, handle?_pushHandle_self _, rfl, ?_⟩
      have hzero : openers.countP (fun o => o.sector = s) = 0 :=
        List.countP_eq_zero.2 fun o ho => by simpa using hs o ho
      rw [Opener.count, List.countP_cons_of_pos (by simp), hzero]
      rfl
    · obtain ⟨f, hf, hsector, hopeners⟩ := hc.handle o ho
      refine ⟨f, (handle?_pushHandle_of_lt _ (hlt ho)).trans hf, hsector, ?_⟩
      rw [hopeners, Opener.count, Opener.count,
        List.countP_cons_of_neg (by simpa using (hs o ho).symm)]
  · rcases List.mem_cons.1 ho with rfl | ho
    · rcases List.mem_cons.1 ho' with rfl | ho'
      · rfl
      · exact absurd he.symm (hs o' ho')
    · rcases List.mem_cons.1 ho' with rfl | ho'
      · exact absurd he (hs o ho)
      · exact hc.single o ho o' ho' he

theorem count_erase (ho : o ∈ openers) (s : SectorId) : Opener.count (openers.erase o) s =
    Opener.count openers s - if o.sector = s then 1 else 0 := by
  rw [Opener.count, Opener.count, List.countP_erase]
  simp [ho]

/-- One opener less, not the last one. -/
theorem left (hc : reg.SharedBy a registered openers) (ho : o ∈ openers)
    (hf : reg.handle? o.handle = some ⟨⟨0⟩, f⟩) (hlast : f.openers ≠ 1) :
    (reg.setHandle o.handle ⟨⟨0⟩, { f with openers := f.openers - 1 }⟩).SharedBy a registered
      (openers.erase o) := by
  have hopeners : f.openers = Opener.count openers o.sector := by
    obtain ⟨g, hg, -, hopeners⟩ := hc.handle o ho
    obtain rfl := (Handle.mk.inj (Option.some.inj (hg.symm.trans hf))).2
    exact hopeners
  -- Somebody else has the sector open, by the same handle.
  obtain ⟨p, hp, hps⟩ : ∃ p ∈ openers.erase o, p.handle = o.handle := by
    have hpos : 0 < Opener.count openers o.sector :=
      List.countP_pos_iff.2 ⟨o, ho, by simp⟩
    have hcount : 0 < Opener.count (openers.erase o) o.sector := by
      rw [count_erase ho, if_pos rfl]
      omega
    obtain ⟨p, hp, hps⟩ := List.countP_pos_iff.1 hcount
    exact ⟨p, hp, hc.single p (List.mem_of_mem_erase hp) o ho (of_decide_eq_true hps)⟩
  refine ⟨hc.tables, hc.nodup, fun h => ?_, fun p' hp' => ?_, fun p hp p' hp' =>
    hc.single p (List.mem_of_mem_erase hp) p' (List.mem_of_mem_erase hp')⟩
  · rw [hc.mem_registered]
    constructor
    · rintro ⟨q, hq, rfl⟩
      by_cases he : q = o
      · exact ⟨p, hp, hps.trans (congrArg Opener.handle he.symm)⟩
      · exact ⟨q, (List.mem_erase_of_ne he).2 hq, rfl⟩
    · rintro ⟨q, hq, rfl⟩
      exact ⟨q, List.mem_of_mem_erase hq, rfl⟩
  · have hmem := List.mem_of_mem_erase hp'
    obtain ⟨g, hg, hsector, hg'⟩ := hc.handle p' hmem
    rw [count_erase ho]
    by_cases hs : o.sector = p'.sector
    · have hhandle := hc.single o ho p' hmem hs
      rw [hhandle] at hf ⊢
      obtain rfl := (Handle.mk.inj (Option.some.inj (hg.symm.trans hf))).2
      refine ⟨_, handle?_setHandle_self hg, hsector, ?_⟩
      rw [if_pos hs, hg']
    · have hne : p'.handle ≠ o.handle := fun he => hs (hc.eq_of_handle_eq ho hmem he.symm)
      refine ⟨g, (handle?_setHandle_of_ne hne).trans hg, hsector, ?_⟩
      rw [if_neg hs, Nat.sub_zero, hg']

/-- The last opener of a sector goes, and the handle with it. -/
theorem gone (hc : reg.SharedBy a registered openers) (ho : o ∈ openers)
    (hf : reg.handle? o.handle = some ⟨⟨0⟩, f⟩) (hlast : f.openers = 1) {a' : σ}
    (ht : reg'.tables = #[⟨a', registered.filter (· != o.handle)⟩])
    (hothers : ∀ h, h ≠ o.handle → reg'.handle? h = reg.handle? h) :
    reg'.SharedBy a' (registered.filter (· != o.handle)) (openers.erase o) := by
  have hopeners : Opener.count openers o.sector = 1 := by
    obtain ⟨g, hg, -, hopeners⟩ := hc.handle o ho
    obtain rfl := (Handle.mk.inj (Option.some.inj (hg.symm.trans hf))).2
    exact hopeners.symm.trans hlast
  have hothersector {p : Opener} (hp : p ∈ openers.erase o) : o.sector ≠ p.sector := by
    intro hs
    have hcount : Opener.count (openers.erase o) o.sector = 0 := by
      rw [count_erase ho, if_pos rfl, hopeners]
    have hnot := List.countP_eq_zero.1 hcount p hp
    exact hnot (decide_eq_true hs.symm)
  have hotherhandle {p : Opener} (hp : p ∈ openers.erase o) : p.handle ≠ o.handle := fun he =>
    hothersector hp (hc.eq_of_handle_eq ho (List.mem_of_mem_erase hp) he.symm)
  refine ⟨ht, hc.nodup.filter _, fun h => ?_, fun p hp => ?_, fun p hp p' hp' =>
    hc.single p (List.mem_of_mem_erase hp) p' (List.mem_of_mem_erase hp')⟩
  · rw [List.mem_filter, hc.mem_registered, bne_iff_ne]
    constructor
    · rintro ⟨⟨p, hp, rfl⟩, hne⟩
      exact ⟨p, (List.mem_erase_of_ne fun he => hne (congrArg Opener.handle he)).2 hp, rfl⟩
    · rintro ⟨p, hp, rfl⟩
      exact ⟨⟨p, List.mem_of_mem_erase hp, rfl⟩, hotherhandle hp⟩
  · obtain ⟨g, hg, hsector, hg'⟩ := hc.handle p (List.mem_of_mem_erase hp)
    refine ⟨g, (hothers _ (hotherhandle hp)).trans hg, hsector, ?_⟩
    rw [count_erase ho, if_neg (hothersector hp), Nat.sub_zero, hg']

end SharedBy

end Registry

namespace RegistryM

open Program Registry

variable {σ α : Type} {reg : Registry σ} {a : σ} {registered : List HandleId}
  {openers : List Opener} {h : HandleId} {x : Handle} {t : TableId} {e : InodeTable σ}
  {o : Opener} {s : SectorId} {R : α × Registry σ → Prop}

variable [Allocator σ]

theorem perform_retains {o : Operation} (ho : o.IsUse) :
    ((o.perform ⟨0⟩).run reg).Yields fun y => reg.Retains y.2 :=
  (perform_turned ⟨0⟩ o).imp fun _ hy => hy.retains ho

/-- Giving back the sectors of an inode changes no other handle. -/
theorem reclaim_yields (hx : reg.handle? h = some x) (ht : reg.tables = #[⟨a, registered⟩]) :
    ((reclaim ⟨0⟩ h).run reg).Yields fun y => (∃ a', y.2.tables = #[⟨a', registered⟩]) ∧
      ∀ k, k ≠ h → y.2.handle? k = reg.handle? k := by
  simp only [reclaim, StateT.run_bind, inode_run hx, bind_eq, done_bind, yields_bind]
  refine yields_lift.2 (yields_of_forall fun sectors => ?_)
  rw [setInode_run hx]
  refine yields_lift.2 (yields_of_forall fun _ => ?_)
  rw [served_run (table?_setHandle.trans (table?_of_tables ht)), yields_bind]
  refine yields_of_forall fun y => ⟨⟨y.2, ?_⟩, fun k hk => ?_⟩
  · exact tables_setTable (tables_setHandle.trans ht)
  · exact handle?_setHandle_of_ne hk

/-- Closing takes the opener out of the ledger. -/
theorem close_shares (hc : reg.SharedBy a registered openers) (ho : o ∈ openers) :
    ((close ⟨0⟩ o.handle).run reg).Yields fun y =>
      ∃ a' registered', y.2.SharedBy a' registered' (openers.erase o) := by
  obtain ⟨f, hf, -, -⟩ := hc.handle o ho
  simp only [close, StateT.run_bind, inode_run hf, bind_eq, done_bind, yields_bind]
  refine yields_lift.2 (yields_require.2 fun _ => ?_)
  rw [setInode_run hf, yields_done]
  split
  · rename_i hlast
    have hf' : (reg.setHandle o.handle ⟨⟨0⟩, { f with openers := f.openers - 1 }⟩).handle?
        o.handle = some ⟨⟨0⟩, { f with openers := f.openers - 1 }⟩ := handle?_setHandle_self hf
    have hothers (k : HandleId) (hk : k ≠ o.handle) :
        (reg.setHandle o.handle ⟨⟨0⟩, { f with openers := f.openers - 1 }⟩).handle? k =
          reg.handle? k := handle?_setHandle_of_ne hk
    rw [StateT.run_bind, unregister_run (table?_setHandle.trans hc.table?_eq), bind_eq, done_bind,
      StateT.run_bind, bind_eq, yields_bind]
    refine yields_lift.2 (yields_of_forall fun _ => ?_)
    have htables : ((reg.setHandle o.handle ⟨⟨0⟩, { f with openers := f.openers - 1 }⟩).setTable
        ⟨0⟩ ⟨a, registered.filter (· != o.handle)⟩).tables =
          #[⟨a, registered.filter (· != o.handle)⟩] := tables_setTable hc.tables
    split
    · refine (reclaim_yields (handle?_setTable.trans hf') htables).imp fun y hy => ?_
      obtain ⟨⟨a', ht⟩, hrest⟩ := hy
      exact ⟨a', _, hc.gone ho hf hlast ht fun k hk => (hrest k hk).trans (hothers k hk)⟩
    · exact ⟨a, _, hc.gone ho hf hlast htables hothers⟩
  · rename_i hlast
    exact ⟨a, registered, hc.left ho hf hlast⟩

omit [Allocator σ] in
/-- Opening enters an opener in the ledger. If it fails it changes nothing. -/
theorem openAt_shares (hc : reg.SharedBy a registered openers) (s : SectorId) :
    ((openAt ⟨0⟩ s).run reg).Yields fun y => match y.1 with
      | .ok h => ∃ registered', y.2.SharedBy a registered' (⟨s, h⟩ :: openers)
      | .error e => e = .badMagic s ∧ y.2 = reg := by
  by_cases hs : ∃ o ∈ openers, o.sector = s
  · obtain ⟨o, ho, rfl⟩ := hs
    obtain ⟨f, hf, -, -⟩ := hc.handle o ho
    rw [openAt_run_found hc.table?_eq (hc.find?_eq_some ho) hf]
    exact ⟨registered, hc.joined ho hf⟩
  · have hnew : ∀ o ∈ openers, o.sector ≠ s := fun o ho he => hs ⟨o, ho, he⟩
    rw [openAt_run_new hc.table?_eq (hc.find?_eq_none hnew), yields_bind]
    refine yields_of_forall ?_
    intro record
    split
    · rw [yields_bind]
      exact yields_of_forall fun _ => ⟨rfl, rfl⟩
    · rw [yields_bind]
      exact yields_of_forall fun _ => ⟨_, hc.added hnew record⟩

end RegistryM

end InodeVolume

import InodeVolume.Proofs.FileStore.Basic
import InodeVolume.Proofs.Inode.Settling
import InodeVolume.Proofs.Registry.Runs

/-!
How a handle is used: who has it open, who denies writes, and whether it is to be reclaimed. Apart
from the record, an operation changes that of one handle only, which it names or which its reply
names; `Operation.Turns` says all that it does there, with the assertions that it runs through. It
needs nothing of the registry for that, of the allocator or of the device.
-/
namespace InodeVolume

namespace OpenInode

open Program

variable {f g : OpenInode} {target position offset written : Nat} {bytes : Bytes}

/-- At most the record has changed. -/
def SameUse (f g : OpenInode) : Prop := g = { f with record := g.record }

theorem sameUse_refl (f : OpenInode) : f.SameUse f := rfl

theorem SameUse.trans {g' : OpenInode} (h : f.SameUse g) (h' : g.SameUse g') : f.SameUse g' := by
  rw [SameUse] at h h' ⊢
  rw [h', h]

theorem SameUse.sector_eq (h : f.SameUse g) : g.sector = f.sector := by rw [h]

theorem SameUse.openers_eq (h : f.SameUse g) : g.openers = f.openers := by rw [h]

theorem SameUse.removed_eq (h : f.SameUse g) : g.removed = f.removed := by rw [h]

theorem SameUse.denials_eq (h : f.SameUse g) : g.denials = f.denials := by rw [h]

theorem growTo_sameUse (f : OpenInode) (blocks : Nat) :
    (f.growTo blocks).Yields fun x => ∀ g, x = .ok g → f.SameUse g := by
  rw [growTo]
  split
  · intro g hg
    exact Except.ok.inj hg ▸ f.sameUse_refl
  · simp only [bind_eq, yields_bind]
    refine yields_of_forall fun count => yields_of_forall fun obtained => ?_
    cases obtained with
    | error e =>
      intro g hg
      cases hg
    | ok ids =>
      simp only [yields_bind]
      refine yields_of_forall fun r => yields_of_forall fun _ g hg => ?_
      cases hg
      rfl

theorem resized_sameUse (f : OpenInode) (length : Nat) : (f.resized length).Yields f.SameUse := by
  rw [resized, bind_eq, yields_bind]
  exact yields_of_forall fun _ => rfl

theorem settle_sameUse (f : OpenInode) (target : Nat) :
    (f.settle target).Yields fun x => f.SameUse x.2 := by
  have hsync (g : OpenInode) (hg : f.SameUse g) :
      (g.syncAt target).Yields fun x => f.SameUse x.2 := by
    simp only [syncAt, liftM_eq, bind_eq, yields_bind]
    exact yields_of_forall fun _ => yields_of_forall fun _ => yields_of_forall fun _ => hg
  rw [settle]
  split
  · simp only [liftM_eq, bind_eq, yields_bind, yields_onStore]
    exact (f.resized_sameUse _).imp hsync
  · exact hsync f f.sameUse_refl

theorem extend_sameUse (f : OpenInode) (target : Nat) :
    (f.extend target).Yields fun x => f.SameUse x.2 := by
  rw [extend_eq]
  split
  · exact f.sameUse_refl
  · rw [yields_bind]
    refine (f.growTo_sameUse _).imp fun grown hgrown => ?_
    cases grown with
    | error e => exact f.sameUse_refl
    | ok g => exact (g.settle_sameUse target).imp fun _ => (hgrown g rfl).trans

theorem sectorFor_sameUse (f : OpenInode) (position : Nat) :
    (f.sectorFor position).Yields fun x => f.SameUse x.2 := by
  rw [sectorFor, bind_eq, yields_bind]
  refine yields_of_forall fun place => ?_
  cases place with
  | some id => exact f.sameUse_refl
  | none => exact f.extend_sameUse position

theorem reach_sameUse (f : OpenInode) (stop : Nat) : (f.reach stop).Yields f.SameUse := by
  rw [reach]
  split
  · exact f.sameUse_refl
  · simp only [bind_eq, yields_bind]
    refine (f.resized_sameUse stop).imp fun g hg => ?_
    exact yields_of_forall fun _ => hg

theorem writeFrom_sameUse (f : OpenInode) (offset : Nat) (bytes : Bytes) (written : Nat) :
    (f.writeFrom offset bytes written).Yields fun x => f.SameUse x.2 := by
  fun_induction writeFrom f offset bytes written with
  | case1 f written hlt ih =>
    simp only [bind_eq, yields_bind]
    refine yields_of_forall fun start => ?_
    refine (f.sectorFor_sameUse start).imp ?_
    rintro ⟨place, g⟩ hg
    cases place with
    | error e =>
      rw [yields_bind]
      exact yields_of_forall fun _ => hg
    | ok id =>
      simp only [liftM_eq, yields_bind, yields_onStore]
      refine yields_of_forall fun _ => (g.reach_sameUse _).imp fun g' hg' => ?_
      exact (ih _ g').imp fun x hx => (hg.trans hg').trans hx
  | case2 f written hlt => exact f.sameUse_refl

theorem writeAt_sameUse (f : OpenInode) (offset : Nat) (bytes : Bytes) :
    (f.writeAt offset bytes).Yields fun x => f.SameUse x.2 := by
  rw [writeAt]
  split
  · rw [bind_eq, yields_bind]
    exact yields_of_forall fun _ => f.sameUse_refl
  · exact f.writeFrom_sameUse offset bytes 0

end OpenInode

namespace Operation

/-- Neither opens nor closes. -/
def IsUse : Operation → Prop
  | .openAt _ => False
  | .reopen _ => False
  | .close _ => False
  | _ => True

/-- The handle of which an operation with this reply changes how it is used. -/
def turned : (o : Operation) → o.Reply → Option HandleId
  | .openAt _, .ok h => some h
  | .reopen h, _ => some h
  | .close h, _ => some h
  | .remove h, _ => some h
  | .denyWrite h, _ => some h
  | .allowWrite h, _ => some h
  | _, _ => none

/-- What becomes of the inode of that handle. -/
def Turns : Operation → OpenInode → OpenInode → Prop
  | .openAt _, f, g => f.reopened.SameUse g
  | .reopen _, f, g => f.reopened.SameUse g
  | .close _, f, g => 0 < f.openers ∧ OpenInode.SameUse { f with openers := f.openers - 1 } g
  | .remove _, f, g => f.markedRemoved.SameUse g
  | .denyWrite _, f, g =>
    f.denials < f.openers ∧ OpenInode.SameUse { f with denials := f.denials + 1 } g
  | .allowWrite _, f, g => 0 < f.denials ∧ f.denials ≤ f.openers ∧
    OpenInode.SameUse { f with denials := f.denials - 1 } g
  | _, f, g => f.SameUse g

variable {o : Operation} {f g g' : OpenInode}

theorem Turns.sameUse (h : o.Turns f g) (hg : g.SameUse g') : o.Turns f g' := by
  cases o with
  | close k => exact ⟨h.1, h.2.trans hg⟩
  | denyWrite k => exact ⟨h.1, h.2.trans hg⟩
  | allowWrite k => exact ⟨h.1, h.2.1, h.2.2.trans hg⟩
  | _ => exact OpenInode.SameUse.trans h hg

end Operation

namespace Registry

variable {σ : Type} {reg reg' : Registry σ} {h : HandleId} {x : Handle} {t : TableId}
  {e : InodeTable σ} {f : OpenInode} {o : Operation} {y : o.Reply}

/-- Apart from the records, the handles are what they were, and so is which of them the only table
has registered. -/
structure KeepsUse (reg reg' : Registry σ) : Prop where
  tables : ∀ a registered, reg.tables = #[⟨a, registered⟩] → ∃ a', reg'.tables = #[⟨a', registered⟩]
  size_eq : reg'.handles.size = reg.handles.size
  handle : ∀ k x, reg.handle? k = some x →
    ∃ g, reg'.handle? k = some ⟨x.home, g⟩ ∧ x.inode.SameUse g

/-- One handle has been turned as told, and the others are used as before. A handle that was not
there is a new one, and which of them the only table has registered changes with openings and closes
alone. -/
structure Turned (reg : Registry σ) (o : Operation) (y : o.Reply) (reg' : Registry σ) : Prop where
  tables : o.IsUse → ∀ a registered, reg.tables = #[⟨a, registered⟩] →
    ∃ a', reg'.tables = #[⟨a', registered⟩]
  turns : ∀ k x, o.turned y = some k → reg.handle? k = some x →
    ∃ g, reg'.handle? k = some ⟨x.home, g⟩ ∧ o.Turns x.inode g
  keeps : ∀ k x, o.turned y ≠ some k → reg.handle? k = some x →
    ∃ g, reg'.handle? k = some ⟨x.home, g⟩ ∧ x.inode.SameUse g
  fresh : ∀ k x, reg.handle? k = none → reg'.handle? k = some x →
    ∃ s record, x.inode = .ofRecord s record

theorem keepsUse_refl (reg : Registry σ) : reg.KeepsUse reg where
  tables a _ ht := ⟨a, ht⟩
  size_eq := rfl
  handle _ x hx := ⟨x.inode, hx, x.inode.sameUse_refl⟩

theorem keepsUse_setHandle (hx : reg.handle? h = some x) (hf : x.inode.SameUse f) :
    reg.KeepsUse (reg.setHandle h { x with inode := f }) where
  tables a _ ht := ⟨a, ht⟩
  size_eq := Array.size_setIfInBounds
  handle k y hy := by
    by_cases hk : k = h
    · subst hk
      obtain rfl := Option.some.inj (hx.symm.trans hy)
      exact ⟨f, handle?_setHandle_self hx, hf⟩
    · exact ⟨y.inode, (handle?_setHandle_of_ne hk).trans hy, y.inode.sameUse_refl⟩

theorem keepsUse_setTable (ht : reg.table? t = some e) (a' : σ) :
    reg.KeepsUse (reg.setTable t { e with allocator := a' }) where
  tables a registered hts := by
    -- There is one table only, so this is it.
    obtain ⟨i⟩ := t
    have hi : i = 0 := by
      have hlt := (Array.getElem?_eq_some_iff.1 ht).1
      rw [hts] at hlt
      exact Nat.lt_one_iff.1 hlt
    subst hi
    obtain rfl := Option.some.inj ((table?_of_tables hts).symm.trans ht)
    exact ⟨a', tables_setTable hts⟩
  size_eq := rfl
  handle _ y hy := ⟨y.inode, hy, y.inode.sameUse_refl⟩

theorem KeepsUse.trans {reg'' : Registry σ} (h : reg.KeepsUse reg') (h' : reg'.KeepsUse reg'') :
    reg.KeepsUse reg'' where
  tables a registered ht := by
    obtain ⟨a', ht'⟩ := h.tables a registered ht
    exact h'.tables a' registered ht'
  size_eq := h'.size_eq.trans h.size_eq
  handle k x hx := by
    obtain ⟨f, hf, hsame⟩ := h.handle k x hx
    obtain ⟨g, hg, hsame'⟩ := h'.handle k _ hf
    exact ⟨g, hg, hsame.trans hsame'⟩

theorem handle?_eq_none_iff {k : HandleId} : reg.handle? k = none ↔ reg.handles.size ≤ k.index :=
  Array.getElem?_eq_none_iff

theorem KeepsUse.handle?_eq_none (h : reg.KeepsUse reg') {k : HandleId} :
    reg'.handle? k = none ↔ reg.handle? k = none := by
  rw [handle?_eq_none_iff, handle?_eq_none_iff, h.size_eq]

theorem KeepsUse.turned (h : reg.KeepsUse reg') (ho : o.turned y = none) : reg.Turned o y reg' where
  tables _ := h.tables
  turns k _ hk := by
    rw [ho] at hk
    cases hk
  keeps k x _ hx := h.handle k x hx
  fresh k x hk hx := by
    rw [h.handle?_eq_none.2 hk] at hx
    cases hx

theorem turned_setHandle (o : Operation) (y : o.Reply) (hx : reg.handle? h = some x)
    (ho : o.turned y = some h) (hf : o.Turns x.inode f) :
    reg.Turned o y (reg.setHandle h { x with inode := f }) where
  tables _ a _ ht := ⟨a, ht⟩
  turns k z hk hz := by
    obtain rfl := Option.some.inj (ho.symm.trans hk)
    obtain rfl := Option.some.inj (hx.symm.trans hz)
    exact ⟨f, handle?_setHandle_self hx, hf⟩
  keeps k z hk hz := by
    have hne : k ≠ h := fun he => hk (he ▸ ho)
    exact ⟨z.inode, (handle?_setHandle_of_ne hne).trans hz, z.inode.sameUse_refl⟩
  fresh k z hk hz := by
    have hne : k ≠ h := fun he => by
      rw [he, hx] at hk
      cases hk
    rw [handle?_setHandle_of_ne hne, hk] at hz
    cases hz

/-- What is done to the registry besides. -/
theorem Turned.trans_keepsUse {reg'' : Registry σ} (h : reg.Turned o y reg')
    (h' : reg'.KeepsUse reg'') : reg.Turned o y reg'' where
  tables ho a registered ht := by
    obtain ⟨a', ht'⟩ := h.tables ho a registered ht
    exact h'.tables a' registered ht'
  turns k x hk hx := by
    obtain ⟨f, hf, hturns⟩ := h.turns k x hk hx
    obtain ⟨g, hg, hsame⟩ := h'.handle k _ hf
    exact ⟨g, hg, hturns.sameUse hsame⟩
  keeps k x hk hx := by
    obtain ⟨f, hf, hsame⟩ := h.keeps k x hk hx
    obtain ⟨g, hg, hsame'⟩ := h'.handle k _ hf
    exact ⟨g, hg, hsame.trans hsame'⟩
  fresh k x hk hx := by
    cases hz : reg'.handle? k with
    | none =>
      rw [h'.handle?_eq_none.2 hz] at hx
      cases hx
    | some z =>
      obtain ⟨s, record, hs⟩ := h.fresh k z hk hz
      obtain ⟨g, hg, hsame⟩ := h'.handle k z hz
      obtain rfl := Option.some.inj (hg.symm.trans hx)
      rw [hs] at hsame
      exact ⟨s, g.record, hsame⟩

/-- Another table in the place of one. -/
theorem Turned.setTable (h : reg.Turned o y reg') (ho : ¬ o.IsUse) (t : TableId)
    (table : InodeTable σ) : reg.Turned o y (reg'.setTable t table) :=
  ⟨fun hu => absurd hu ho, h.turns, h.keeps, h.fresh⟩

/-- A handle that has not been there. -/
theorem turned_pushHandle (t : TableId) (table : InodeTable σ) (s : SectorId)
    (record : InodeRecord) : reg.Turned (.openAt s) (.ok ⟨reg.handles.size⟩)
      ((reg.setTable t table).pushHandle ⟨t, .ofRecord s record⟩) where
  tables ho := ho.elim
  turns k x hk hx := by
    obtain rfl := Option.some.inj hk
    exact absurd (lt_size_of_handle? hx) (Nat.lt_irrefl _)
  keeps k x _ hx := by
    refine ⟨x.inode, ?_, x.inode.sameUse_refl⟩
    exact (handle?_pushHandle_of_lt (reg.setTable t table) (lt_size_of_handle? hx)).trans hx
  fresh k x hk hx := by
    have hle := handle?_eq_none_iff.1 hk
    have hlt := lt_size_of_handle? hx
    simp only [pushHandle, setTable, Array.size_push] at hlt
    obtain rfl : k = ⟨reg.handles.size⟩ := by
      obtain ⟨i⟩ := k
      exact congrArg HandleId.mk (Nat.le_antisymm (Nat.le_of_lt_succ hlt) hle)
    obtain rfl := Option.some.inj
      ((handle?_pushHandle_self (reg.setTable t table)).symm.trans hx)
    exact ⟨s, record, rfl⟩

end Registry

namespace RegistryM

open Program Registry

variable {σ α : Type} {reg : Registry σ} {h : HandleId} {x : Handle} {t : TableId}
  {e : InodeTable σ} {R : α × Registry σ → Prop}

theorem yields_lift {p : Program Disk α} :
    ((StateT.lift p : RegistryM σ α).run reg).Yields R ↔ p.Yields fun a => R (a, reg) := by
  rw [StateT.run_lift, bind_eq, yields_bind]
  exact Iff.rfl

/-- A handle that is used is there. -/
theorem yields_handle {R : Handle × Registry σ → Prop}
    (hR : ∀ x, reg.handle? h = some x → R (x, reg)) : ((handle h).run reg).Yields R :=
  yields_lift.2 (yields_getOrBreach.2 hR)

theorem yields_inode {R : OpenInode × Registry σ → Prop}
    (hR : ∀ x, reg.handle? h = some x → R (x.inode, reg)) : ((inode h).run reg).Yields R := by
  simp only [inode, StateT.run_bind, bind_eq, yields_bind]
  exact yields_handle hR

/-- A table that is used is there. -/
theorem yields_table {R : InodeTable σ × Registry σ → Prop}
    (hR : ∀ e, reg.table? t = some e → R (e, reg)) : ((table t).run reg).Yields R :=
  yields_lift.2 (yields_getOrBreach.2 hR)

theorem yields_setInode {f : OpenInode} {R : Unit × Registry σ → Prop} (hx : reg.handle? h = some x)
    (hR : R ((), reg.setHandle h { x with inode := f })) : ((setInode h f).run reg).Yields R := by
  rw [setInode_run hx]
  exact hR

theorem yields_unregister {R : Unit × Registry σ → Prop} (hR : ∀ e, reg.table? t = some e →
      R ((), reg.setTable t { e with registered := e.registered.filter (· != h) })) :
    ((unregister t h).run reg).Yields R := by
  simp only [unregister, StateT.run_bind, bind_eq, yields_bind]
  exact yields_table hR

theorem setInode_turned {f : OpenInode} (o : Operation) (y : o.Reply)
    (hx : reg.handle? h = some x) (ho : o.turned y = some h) (hf : o.Turns x.inode f) :
    ((setInode h f).run reg).Yields fun z => reg.Turned o y z.2 :=
  yields_setInode hx (turned_setHandle o y hx ho hf)

variable [Allocator σ]

theorem yields_served {p : Program Store α} (hR : ∀ e, reg.table? t = some e →
      (p.serve e.allocator).Yields fun y => R (y.1, reg.setTable t { e with allocator := y.2 })) :
    ((served t p).run reg).Yields R := by
  simp only [served, StateT.run_bind, bind_eq, yields_bind]
  exact yields_table fun e he => yields_lift.2 (hR e he)

theorem served_keepsUse (t : TableId) (p : Program Store α) :
    ((served t p).run reg).Yields fun y => reg.KeepsUse y.2 :=
  yields_served fun _ he => yields_of_forall fun y => keepsUse_setTable he y.2

theorem transact_keepsUse (h : HandleId) {p : OpenInode → Program Store (α × OpenInode)}
    (hp : ∀ f, (p f).Yields fun y => f.SameUse y.2) :
    ((transact h p).run reg).Yields fun y => reg.KeepsUse y.2 := by
  simp only [transact, StateT.run_bind, bind_eq, yields_bind]
  refine yields_handle fun x hx => yields_served fun e he => ?_
  refine ((hp x.inode).serve e.allocator).imp fun y hy => ?_
  have hx' : (reg.setTable x.home { e with allocator := y.2 }).handle? h = some x :=
    handle?_setTable.trans hx
  exact yields_setInode hx' ((keepsUse_setTable he y.2).trans (keepsUse_setHandle hx' hy))

theorem reclaim_keepsUse (t : TableId) (h : HandleId) :
    ((reclaim t h).run reg).Yields fun y => reg.KeepsUse y.2 := by
  simp only [reclaim, StateT.run_bind, bind_eq, yields_bind]
  refine yields_inode fun x hx => yields_lift.2 (yields_of_forall fun sectors => ?_)
  refine yields_setInode hx (yields_lift.2 (yields_of_forall fun _ => ?_))
  refine (served_keepsUse t _).imp fun y hy => ?_
  have hemptied : x.inode.SameUse { x.inode with record := x.inode.record.emptied } := rfl
  exact (keepsUse_setHandle hx hemptied).trans hy

theorem close_turned (t : TableId) (h : HandleId) :
    ((close t h).run reg).Yields fun y => reg.Turned (.close h) y.1 y.2 := by
  simp only [close, StateT.run_bind, bind_eq, yields_bind]
  refine yields_inode fun x hx => yields_lift.2 (yields_require.2 fun hpos => ?_)
  have hturns : (Operation.close h).Turns x.inode
      { x.inode with openers := x.inode.openers - 1 } := ⟨hpos, rfl⟩
  have hturned := turned_setHandle (.close h) () hx rfl hturns
  refine yields_setInode hx ?_
  split
  · simp only [StateT.run_bind, bind_eq, yields_bind]
    refine yields_unregister fun e he => yields_lift.2 (yields_of_forall fun _ => ?_)
    have hlast := hturned.setTable id t { e with registered := e.registered.filter (· != h) }
    split
    · exact (reclaim_keepsUse t h).imp fun y hy => hlast.trans_keepsUse hy
    · exact hlast
  · exact hturned

omit [Allocator σ] in
theorem openAt_turned (t : TableId) (s : SectorId) :
    ((openAt t s).run reg).Yields fun y => reg.Turned (.openAt s) y.1 y.2 := by
  cases ht : reg.table? t with
  | none =>
    simp only [openAt, StateT.run_bind, bind_eq, yields_bind]
    refine yields_table fun e he => ?_
    rw [ht] at he
    cases he
  | some e =>
    cases hfind : reg.find? e s with
    | some k =>
      obtain ⟨x, hx, -⟩ := (Option.any_eq_true _ _).1 (mem_of_find? hfind).2
      rw [openAt_run_found ht hfind hx]
      exact turned_setHandle (.openAt s) (.ok k) hx rfl x.inode.reopened.sameUse_refl
    | none =>
      rw [openAt_run_new ht hfind, yields_bind]
      refine yields_of_forall ?_
      intro record
      split
      · rw [yields_bind]
        exact yields_of_forall fun _ => reg.keepsUse_refl.turned rfl
      · rw [yields_bind]
        exact yields_of_forall fun _ => turned_pushHandle t _ s record

/-- Every operation, whatever there is in the registry. -/
theorem perform_turned (t : TableId) (o : Operation) :
    ((o.perform t).run reg).Yields fun y => reg.Turned o y.1 y.2 := by
  have seen {h : HandleId} (o : Operation) (p : OpenInode → Program Disk o.Reply)
      (ho : ∀ y, o.turned y = none) : ((inode h).run reg).Yields fun x =>
        ((StateT.lift (p x.1) : RegistryM σ o.Reply).run x.2).Yields
          fun y => reg.Turned o y.1 y.2 :=
    yields_inode fun _ _ => yields_lift.2
      (yields_of_forall fun y => reg.keepsUse_refl.turned (ho y))
  cases o with
  | create length kind => exact (served_keepsUse t _).imp fun _ hy => hy.turned rfl
  | createAt s length kind => exact (served_keepsUse t _).imp fun _ hy => hy.turned rfl
  | openAt s => exact openAt_turned t s
  | reopen h =>
    simp only [Operation.perform, reopen, StateT.run_bind, bind_eq, yields_bind]
    exact yields_inode fun x hx =>
      setInode_turned (.reopen h) () hx rfl x.inode.reopened.sameUse_refl
  | close h => exact close_turned t h
  | remove h =>
    simp only [Operation.perform, remove, StateT.run_bind, bind_eq, yields_bind]
    refine yields_inode fun x hx => ?_
    refine (setInode_turned (.remove h) () hx rfl
      x.inode.markedRemoved.sameUse_refl).imp fun y hy => ?_
    exact yields_lift.2 (yields_of_forall fun _ => hy)
  | denyWrite h =>
    simp only [Operation.perform, denyWrite, StateT.run_bind, bind_eq, yields_bind]
    refine yields_inode fun x hx => yields_lift.2 ?_
    rw [OpenInode.denyWrite, bind_eq, yields_bind, yields_require]
    exact fun hlt => setInode_turned (.denyWrite h) () hx rfl ⟨hlt, OpenInode.sameUse_refl _⟩
  | allowWrite h =>
    simp only [Operation.perform, allowWrite, StateT.run_bind, bind_eq, yields_bind]
    refine yields_inode fun x hx => yields_lift.2 ?_
    simp only [OpenInode.allowWrite, bind_eq, yields_bind, yields_require]
    exact fun hpos hle =>
      setInode_turned (.allowWrite h) () hx rfl ⟨hpos, hle, OpenInode.sameUse_refl _⟩
  | sectorOf h position =>
    simp only [Operation.perform, sectorOf, StateT.run_bind, bind_eq, yields_bind]
    exact seen (.sectorOf h position) (fun f => f.record.sectorOf position) fun _ => rfl
  | readAt h offset length =>
    simp only [Operation.perform, readAt, StateT.run_bind, bind_eq, yields_bind]
    exact seen (.readAt h offset length) (fun f => f.readAt offset length) fun _ => rfl
  | writeAt h offset buffer =>
    exact (transact_keepsUse h (p := fun f => f.writeAt offset buffer) fun f =>
      f.writeAt_sameUse offset buffer).imp fun _ hy => hy.turned rfl
  | extend h target =>
    exact (transact_keepsUse h (p := fun f => f.extend target) fun f =>
      f.extend_sameUse target).imp fun _ hy => hy.turned rfl
  | status h =>
    simp only [Operation.perform, StateT.run_bind, bind_eq, yields_bind]
    exact yields_inode fun x hx => reg.keepsUse_refl.turned rfl
  | allocate => exact (served_keepsUse t _).imp fun _ hy => hy.turned rfl
  | allocateMany count => exact (served_keepsUse t _).imp fun _ hy => hy.turned rfl
  | release s => exact (served_keepsUse t _).imp fun _ hy => hy.turned rfl

section Runs

variable {offset : Nat} {buffer : Bytes}

omit [Allocator σ] in
theorem denyWrite_run (hx : reg.handle? h = some x) (hlt : x.inode.denials < x.inode.openers) :
    (denyWrite h).run reg = .done ((), reg.setHandle h
      { x with inode := { x.inode with denials := x.inode.denials + 1 } }) := by
  have hdeny : x.inode.denyWrite = .done { x.inode with denials := x.inode.denials + 1 } := by
    rw [OpenInode.denyWrite, Program.require, if_pos (Nat.succ_le_of_lt hlt)]
    rfl
  simp only [denyWrite, StateT.run_bind, inode_run hx, StateT.run_lift, hdeny, bind_eq, pure_eq,
    done_bind, setInode_run hx]

omit [Allocator σ] in
/-- There are as many denials as openers. -/
theorem denyWrite_run_refused (hx : reg.handle? h = some x)
    (hle : x.inode.openers ≤ x.inode.denials) :
    (denyWrite h).run reg = .breach (.deniedTooOften x.inode.sector) := by
  have hdeny : x.inode.denyWrite = .breach (.deniedTooOften x.inode.sector) := by
    rw [OpenInode.denyWrite, Program.require, if_neg (Nat.not_le.2 (Nat.lt_succ_of_le hle))]
    rfl
  simp only [denyWrite, StateT.run_bind, inode_run hx, StateT.run_lift, hdeny, bind_eq, done_bind,
    breach, fault_bind]

omit [Allocator σ] in
theorem allowWrite_run (hx : reg.handle? h = some x) (hpos : 0 < x.inode.denials)
    (hle : x.inode.denials ≤ x.inode.openers) :
    (allowWrite h).run reg = .done ((), reg.setHandle h
      { x with inode := { x.inode with denials := x.inode.denials - 1 } }) := by
  have hallow : x.inode.allowWrite = .done { x.inode with denials := x.inode.denials - 1 } := by
    rw [OpenInode.allowWrite, Program.require, if_pos hpos, Program.require, if_pos hle]
    rfl
  simp only [allowWrite, StateT.run_bind, inode_run hx, StateT.run_lift, hallow, bind_eq, pure_eq,
    done_bind, setInode_run hx]

/-- Somebody else keeps the inode open. -/
theorem close_run_stays (t : TableId) (hx : reg.handle? h = some x)
    (hlt : 1 < x.inode.openers) : (close t h).run reg = .done ((), reg.setHandle h
      { x with inode := { x.inode with openers := x.inode.openers - 1 } }) := by
  have hpos : 0 < x.inode.openers := Nat.lt_trans Nat.zero_lt_one hlt
  simp only [close, RegistryM.require, Program.require, StateT.run_bind, inode_run hx,
    StateT.run_lift, if_pos hpos, if_neg (Nat.ne_of_gt hlt), bind_eq, pure_eq, done_bind,
    setInode_run hx]
  rfl

/-- Nobody else does, and the inode has not been removed. -/
theorem close_run_last (hx : reg.handle? h = some x) (ht : reg.table? t = some e)
    (hlast : x.inode.openers = 1) (hremoved : x.inode.removed = false) :
    (close t h).run reg = (Disk.note (.closed x.inode.sector)).bind fun _ => .done ((),
      (reg.setHandle h { x with inode := { x.inode with openers := x.inode.openers - 1 } }).setTable
        t { e with registered := e.registered.filter (· != h) }) := by
  have hpos : 0 < x.inode.openers := hlast ▸ Nat.one_pos
  simp only [close, RegistryM.require, Program.require, StateT.run_bind, inode_run hx,
    StateT.run_lift, if_pos hpos, if_pos hlast, hremoved, bind_eq, pure_eq, done_bind,
    setInode_run hx, unregister_run (table?_setHandle.trans ht)]
  rfl

/-- While writing is denied nothing is written. -/
theorem writeAt_run_denied (hx : reg.handle? h = some x) (ht : reg.table? x.home = some e)
    (hpos : 0 < x.inode.denials) : (writeAt h offset buffer).run reg =
      (Disk.note (.writeDenied x.inode.sector)).bind fun _ => .done (0, reg) := by
  have hsame : (reg.setTable x.home e).setHandle h x = reg := by
    rw [setTable_self ht, setHandle_self hx]
  rw [writeAt, transact_run hx ht, OpenInode.writeAt, if_pos hpos]
  exact congrArg (fun r => (Disk.note (.writeDenied x.inode.sector)).bind fun _ => done (0, r))
    hsame

/-- While it is not, the bytes are written. -/
theorem writeAt_run_admitted (hx : reg.handle? h = some x) (hzero : x.inode.denials = 0) :
    (writeAt h offset buffer).run reg =
      (transact h fun f => f.writeFrom offset buffer 0).run reg := by
  have hnot : ¬ 0 < x.inode.denials := hzero ▸ Nat.lt_irrefl 0
  simp only [writeAt, transact, StateT.run_bind, handle_run hx, bind_eq, done_bind,
    OpenInode.writeAt, if_neg hnot]

end Runs

end RegistryM

end InodeVolume

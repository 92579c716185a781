import InodeVolume.Proofs.FileStore.Basic
import InodeVolume.Proofs.Program.Recording
import InodeVolume.Proofs.Registry.Runs

/-!
Forgetting what allocators have recorded. An operation over tables whose allocators record their
calls is the operation over the tables without the records: it does the same to the device and gives
the same notices, so a record can be kept of any run without disturbing it.
-/
namespace InodeVolume

namespace Registry

variable {σ : Type}

/-- A table without the record of its allocator. -/
def forgetTable (e : InodeTable (Recorded σ)) : InodeTable σ := ⟨e.allocator.inner, e.registered⟩

/-- A registry without the records of its allocators. -/
def forget (reg : Registry (Recorded σ)) : Registry σ := ⟨reg.tables.map forgetTable, reg.handles⟩

variable (reg : Registry (Recorded σ)) (t : TableId) (h : HandleId)

@[simp] theorem handle?_forget : reg.forget.handle? h = reg.handle? h := rfl

@[simp] theorem table?_forget : reg.forget.table? t = (reg.table? t).map forgetTable := by
  simp [forget, table?]

@[simp] theorem forget_setTable (e : InodeTable (Recorded σ)) :
    (reg.setTable t e).forget = reg.forget.setTable t (forgetTable e) := by
  simp [forget, setTable]

@[simp] theorem find?_forget (e : InodeTable (Recorded σ)) (s : SectorId) :
    reg.forget.find? (forgetTable e) s = reg.find? e s := rfl

end Registry

namespace RegistryM

open Program Registry

variable {σ α α' β β' : Type}

/-- `p'` does without the records what `p` does with them. `f` takes the records out of a result. -/
def Forgets (f : α → α') (p : RegistryM (Recorded σ) α) (p' : RegistryM σ α') : Prop :=
  ∀ reg, ((p.run reg).bind fun x => done (f x.1, x.2.forget)) = p'.run reg.forget

section Parts

theorem forgets_pure {f : α → α'} (x : α) :
    Forgets f (pure x : RegistryM (Recorded σ) α) (pure (f x)) := fun _ => rfl

theorem Forgets.bind {f : α → α'} {g : β → β'} {p : RegistryM (Recorded σ) α}
    {p' : RegistryM σ α'} {k : α → RegistryM (Recorded σ) β} {k' : α' → RegistryM σ β'}
    (hp : Forgets f p p') (hk : ∀ x, Forgets g (k x) (k' (f x))) :
    Forgets g (p >>= k) (p' >>= k') := by
  intro reg
  have hnext (x : α × Registry (Recorded σ)) :
      (((k x.1).run x.2).bind fun y => done (g y.1, y.2.forget)) =
        (k' (f x.1)).run x.2.forget := hk x.1 x.2
  rw [StateT.run_bind, StateT.run_bind, bind_eq, bind_eq, bind_bind, ← hp reg, bind_bind]
  simp only [hnext, done_bind]

theorem forgets_lift {f : α → α'} {p : Program Disk α} {p' : Program Disk α'}
    (h : (p.bind fun x => done (f x)) = p') :
    Forgets f (StateT.lift p : RegistryM (Recorded σ) α) (StateT.lift p') := by
  intro reg
  subst h
  simp only [StateT.run_lift, bind_eq, pure_eq, bind_bind, done_bind]

/-- A program that uses the disk alone. -/
theorem forgets_lift_id (p : Program Disk α) :
    Forgets id (StateT.lift p : RegistryM (Recorded σ) α) (StateT.lift p) :=
  forgets_lift (bind_done p)

theorem forgets_get :
    Forgets forget (get : RegistryM (Recorded σ) (Registry (Recorded σ))) get := fun _ => rfl

theorem forgets_modify {f : Registry (Recorded σ) → Registry (Recorded σ)}
    {f' : Registry σ → Registry σ} (h : ∀ reg, (f reg).forget = f' reg.forget) :
    Forgets id (modify f : RegistryM (Recorded σ) PUnit) (modify f') :=
  fun reg => congrArg (fun r => done (PUnit.unit, r)) (h reg)

theorem forgets_set {reg : Registry (Recorded σ)} {reg' : Registry σ} (h : reg.forget = reg') :
    Forgets id (set reg : RegistryM (Recorded σ) PUnit) (set reg') :=
  fun _ => congrArg (fun r => done (PUnit.unit, r)) h

theorem forgets_require (p : Prop) [Decidable p] (b : Breach) :
    Forgets id (require p b : RegistryM (Recorded σ) Unit) (require p b) := forgets_lift_id _

theorem forgets_table (t : TableId) :
    Forgets forgetTable (table t : RegistryM (Recorded σ) _) (table t) := by
  refine forgets_get.bind fun reg => forgets_lift ?_
  rw [table?_forget]
  cases reg.table? t <;> rfl

theorem forgets_handle (h : HandleId) :
    Forgets id (handle h : RegistryM (Recorded σ) Handle) (handle h) :=
  forgets_get.bind fun reg => forgets_lift_id (.getOrBreach (reg.handle? h) .unknownReference)

theorem forgets_inode (h : HandleId) :
    Forgets id (inode h : RegistryM (Recorded σ) OpenInode) (inode h) :=
  (forgets_handle h).bind fun _ => forgets_pure _

theorem forgets_setInode (h : HandleId) (f : OpenInode) :
    Forgets id (setInode h f : RegistryM (Recorded σ) Unit) (setInode h f) :=
  (forgets_handle h).bind fun _ => forgets_modify fun _ => rfl

theorem forgets_unregister (t : TableId) (h : HandleId) :
    Forgets id (unregister t h : RegistryM (Recorded σ) Unit) (unregister t h) :=
  (forgets_table t).bind fun _ => forgets_modify fun reg => forget_setTable reg t _

/-- What is done with an open inode. -/
theorem forgets_with {p : OpenInode → Program Disk α} (h : HandleId) :
    Forgets id (do StateT.lift (p (← inode h)) : RegistryM (Recorded σ) α)
      (do StateT.lift (p (← inode h))) :=
  (forgets_inode h).bind fun _ => forgets_lift_id _

theorem forgets_openAt (t : TableId) (s : SectorId) :
    Forgets id (openAt t s : RegistryM (Recorded σ) _) (openAt t s) := by
  refine (forgets_table t).bind fun e => forgets_get.bind fun reg => ?_
  rw [find?_forget]
  split
  · rename_i h _
    exact (forgets_inode h).bind fun f => (forgets_setInode h f.reopened).bind fun _ =>
      forgets_pure _
  · refine (forgets_lift_id _).bind fun record => ?_
    change Forgets id (if !record.isValid then _ else _) (if !record.isValid then _ else _)
    split
    · exact (forgets_lift_id _).bind fun _ => forgets_pure _
    · exact forgets_get.bind fun reg => (forgets_set (by simp [forget, setTable, forgetTable])).bind
        fun _ => (forgets_lift_id _).bind fun _ => forgets_pure _

end Parts

variable [Allocator σ]

theorem forgets_served (t : TableId) (p : Program Store α) :
    Forgets id (served t p : RegistryM (Recorded σ) α) (served t p) := by
  refine (forgets_table t).bind fun e => ?_
  refine (forgets_lift (f := fun x => (x.1, x.2.inner)) (Recorded.serve_inner p e.allocator)).bind
    fun x => ?_
  exact (forgets_modify fun reg => forget_setTable reg t _).bind fun _ => forgets_pure _

theorem forgets_transact (h : HandleId) (p : OpenInode → Program Store (α × OpenInode)) :
    Forgets id (transact h p : RegistryM (Recorded σ) α) (transact h p) :=
  (forgets_handle h).bind fun _ => (forgets_served _ _).bind fun x =>
    (forgets_setInode h x.2).bind fun _ => forgets_pure _

theorem forgets_reclaim (t : TableId) (h : HandleId) :
    Forgets id (reclaim t h : RegistryM (Recorded σ) Unit) (reclaim t h) :=
  (forgets_inode h).bind fun _ => (forgets_lift_id _).bind fun _ =>
    (forgets_setInode h _).bind fun _ => (forgets_lift_id _).bind fun _ => forgets_served t _

theorem forgets_close (t : TableId) (h : HandleId) :
    Forgets id (close t h : RegistryM (Recorded σ) Unit) (close t h) := by
  refine (forgets_inode h).bind fun f => (forgets_require _ _).bind fun _ =>
    (forgets_setInode h _).bind fun _ => ?_
  change Forgets id (if f.openers = 1 then _ else _) (if f.openers = 1 then _ else _)
  split
  · refine (forgets_unregister t h).bind fun _ => (forgets_lift_id _).bind fun _ => ?_
    change Forgets id (if f.removed = true then _ else _) (if f.removed = true then _ else _)
    split
    · exact forgets_reclaim t h
    · exact forgets_pure _
  · exact forgets_pure _

/-- No operation depends on the records. -/
theorem forgets_perform (t : TableId) (o : Operation) :
    Forgets id (o.perform t : RegistryM (Recorded σ) o.Reply) (o.perform t) := by
  cases o with
  | create length kind => exact forgets_served t _
  | createAt s length kind => exact forgets_served t _
  | openAt s => exact forgets_openAt t s
  | reopen h => exact (forgets_inode h).bind fun f => forgets_setInode h f.reopened
  | close h => exact forgets_close t h
  | remove h =>
    exact (forgets_inode h).bind fun f => (forgets_setInode h f.markedRemoved).bind fun _ =>
      forgets_lift_id _
  | denyWrite h =>
    exact (forgets_inode h).bind fun f => (forgets_lift_id f.denyWrite).bind fun g =>
      forgets_setInode h g
  | allowWrite h =>
    exact (forgets_inode h).bind fun f => (forgets_lift_id f.allowWrite).bind fun g =>
      forgets_setInode h g
  | sectorOf h position => exact forgets_with (p := fun f => f.record.sectorOf position) h
  | readAt h offset length => exact forgets_with (p := fun f => f.readAt offset length) h
  | writeAt h offset buffer => exact forgets_transact h fun f => f.writeAt offset buffer
  | extend h target => exact forgets_transact h fun f => f.extend target
  | status h => exact (forgets_inode h).bind fun _ => forgets_pure _
  | allocate => exact forgets_served t _
  | allocateMany count => exact forgets_served t _
  | release s => exact forgets_served t _

end RegistryM

end InodeVolume

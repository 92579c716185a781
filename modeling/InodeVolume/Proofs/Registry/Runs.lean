import InodeVolume.Registry.Lifecycle
import InodeVolume.Proofs.Program.Dialogue

/-!
What the parts of registry programs do to a registry in which the handle and the table that they
name are there.
-/
namespace InodeVolume

namespace Registry

variable {σ : Type} {reg : Registry σ} {h k : HandleId} {t : TableId} {entry entry' : Handle}
  {table : InodeTable σ} {sector : SectorId}

@[simp] theorem handle?_setTable : (reg.setTable t table).handle? h = reg.handle? h := rfl

@[simp] theorem table?_setHandle : (reg.setHandle h entry).table? t = reg.table? t := rfl

@[simp] theorem tables_setHandle : (reg.setHandle h entry).tables = reg.tables := rfl

theorem lt_size_of_handle? (hh : reg.handle? h = some entry) : h.index < reg.handles.size := by
  rw [handle?] at hh
  exact (Array.getElem?_eq_some_iff.1 hh).1

theorem handle?_setHandle_self (hh : reg.handle? h = some entry) :
    (reg.setHandle h entry').handle? h = some entry' := by
  have hlt := lt_size_of_handle? hh
  simp [handle?, setHandle, hlt]

theorem handle?_setHandle_of_ne (hne : k ≠ h) :
    (reg.setHandle h entry').handle? k = reg.handle? k := by
  have hidx : h.index ≠ k.index := by
    intro he
    apply hne
    cases h
    cases k
    simp_all
  simp [handle?, setHandle, hidx]

/-- What is there already is put in its place. -/
theorem setIfInBounds_getElem? {α : Type} {xs : Array α} {i : Nat} {x : α} (hx : xs[i]? = some x) :
    xs.setIfInBounds i x = xs := by
  obtain ⟨hi, rfl⟩ := Array.getElem?_eq_some_iff.1 hx
  rw [Array.setIfInBounds_def, dif_pos hi, Array.set_getElem_self hi]

theorem setHandle_self (hh : reg.handle? h = some entry) : reg.setHandle h entry = reg := by
  rw [setHandle, setIfInBounds_getElem? hh]

theorem setTable_self (ht : reg.table? t = some table) : reg.setTable t table = reg := by
  rw [setTable, setIfInBounds_getElem? ht]

theorem table?_setTable_self {table' : InodeTable σ} (ht : reg.table? t = some table) :
    (reg.setTable t table').table? t = some table' := by
  have hlt := (Array.getElem?_eq_some_iff.1 ht).1
  simp [table?, setTable, hlt]

/-- A table is put in the place of the only one. -/
theorem tables_setTable {allocator : σ} {registered : List HandleId}
    (ht : reg.tables = #[⟨allocator, registered⟩]) :
    (reg.setTable ⟨0⟩ table).tables = #[table] := by
  simp [setTable, ht]

theorem table?_of_tables {allocator : σ} {registered : List HandleId}
    (ht : reg.tables = #[⟨allocator, registered⟩]) :
    reg.table? ⟨0⟩ = some ⟨allocator, registered⟩ := by
  simp [table?, ht]

/-- A handle behind all others. -/
def pushHandle (reg : Registry σ) (entry : Handle) : Registry σ :=
  { reg with handles := reg.handles.push entry }

variable (reg) in
theorem handle?_pushHandle_self :
    (reg.pushHandle entry).handle? ⟨reg.handles.size⟩ = some entry := by
  simp [handle?, pushHandle]

variable (reg) in
theorem handle?_pushHandle_of_lt (hk : k.index < reg.handles.size) :
    (reg.pushHandle entry).handle? k = reg.handle? k := by
  simp [handle?, pushHandle, Array.getElem?_push, Nat.ne_of_lt hk]

/-- Which handles the search for a sector finds. -/
theorem mem_of_find? (hfind : reg.find? table sector = some h) : h ∈ table.registered ∧
    (reg.handle? h).any (fun handle => handle.inode.sector == sector) = true := by
  rw [find?] at hfind
  have hany := List.find?_some hfind
  exact ⟨List.mem_of_find?_eq_some hfind, hany⟩

theorem not_any_of_find? (hfind : reg.find? table sector = none) (hh : h ∈ table.registered) :
    ¬ (reg.handle? h).any (fun handle => handle.inode.sector == sector) = true :=
  List.find?_eq_none.1 hfind h hh

end Registry

namespace RegistryM

open Program

variable {σ α : Type} {reg : Registry σ} {h : HandleId} {t : TableId} {entry : Handle}
  {e : InodeTable σ}

theorem table_run (ht : reg.table? t = some e) : (table t).run reg = .done (e, reg) := by
  simp [table, ht, getOrBreach]

theorem handle_run (hh : reg.handle? h = some entry) : (handle h).run reg = .done (entry, reg) := by
  simp [handle, hh, getOrBreach]

theorem inode_run (hh : reg.handle? h = some entry) :
    (inode h).run reg = .done (entry.inode, reg) := by
  simp only [inode, StateT.run_bind, handle_run hh, bind_eq, done_bind]
  rfl

/-- A program that only looks at an open inode. -/
theorem inode_lift_run {p : OpenInode → Program Disk α} (hh : reg.handle? h = some entry) :
    (do StateT.lift (p (← inode h)) : RegistryM σ α).run reg =
      (p entry.inode).bind fun x => .done (x, reg) := by
  simp only [StateT.run_bind, inode_run hh, StateT.run_lift, bind_eq, done_bind, pure_eq]

theorem setInode_run {f : OpenInode} (hh : reg.handle? h = some entry) :
    (setInode h f).run reg = .done ((), reg.setHandle h { entry with inode := f }) := by
  simp [setInode, handle_run hh]

/-- Opening an inode that is open counts one opener more. -/
theorem openAt_run_found {s : SectorId} {k : HandleId} (ht : reg.table? t = some e)
    (hfind : reg.find? e s = some k) (hk : reg.handle? k = some entry) : (openAt t s).run reg =
      .done (.ok k, reg.setHandle k { entry with inode := entry.inode.reopened }) := by
  have hget : (get : RegistryM σ (Registry σ)).run reg = .done (reg, reg) := rfl
  simp only [openAt, StateT.run_bind, table_run ht, hget, bind_eq, done_bind, hfind, inode_run hk,
    setInode_run hk]
  rfl

/-- Opening any other loads its record. -/
theorem openAt_run_new {s : SectorId} (ht : reg.table? t = some e) (hfind : reg.find? e s = none) :
    (openAt t s).run reg = (Disk.load s).bind fun record : InodeRecord =>
      if !record.isValid then
        (Disk.note (.notAnInode s)).bind fun _ => .done (.error (.badMagic s), reg)
      else (Disk.note (.opened s)).bind fun _ => .done (.ok ⟨reg.handles.size⟩,
        (reg.setTable t { e with registered := e.registered ++ [⟨reg.handles.size⟩] }).pushHandle
          ⟨t, .ofRecord s record⟩) := by
  have hget : (get : RegistryM σ (Registry σ)).run reg = .done (reg, reg) := rfl
  simp only [openAt, StateT.run_bind, table_run ht, hget, bind_eq, done_bind, hfind,
    StateT.run_lift, bind_bind]
  congr 1
  funext record
  split
  · simp only [pure_eq, done_bind, *]
    rfl
  · simp only [pure_eq, done_bind, *]
    rfl

theorem reopen_run (hh : reg.handle? h = some entry) : (reopen h).run reg =
    .done ((), reg.setHandle h { entry with inode := entry.inode.reopened }) := by
  simp only [reopen, StateT.run_bind, inode_run hh, bind_eq, done_bind, setInode_run hh]

theorem unregister_run (ht : reg.table? t = some e) : (unregister t h).run reg =
    .done ((), reg.setTable t { e with registered := e.registered.filter (· != h) }) := by
  simp only [unregister, StateT.run_bind, table_run ht, bind_eq, done_bind]
  rfl

theorem served_run [Allocator σ] {p : Program Store α} (ht : reg.table? t = some e) :
    (served t p).run reg = (p.serve e.allocator).bind fun x =>
      .done (x.1, reg.setTable t { e with allocator := x.2 }) := by
  simp only [served, StateT.run_bind, table_run ht, StateT.run_lift, bind_eq, pure_eq, done_bind,
    bind_bind]
  rfl

theorem transact_run [Allocator σ] {p : OpenInode → Program Store (α × OpenInode)}
    (hh : reg.handle? h = some entry) (ht : reg.table? entry.home = some e) :
    (transact h p).run reg = ((p entry.inode).serve e.allocator).bind fun x =>
      .done (x.1.1, (reg.setTable entry.home { e with allocator := x.2 }).setHandle h
        { entry with inode := x.1.2 }) := by
  have hset (table : InodeTable σ) (f : OpenInode) : (setInode h f).run (reg.setTable entry.home
      table) = .done ((), (reg.setTable entry.home table).setHandle h { entry with inode := f }) :=
    setInode_run (by rw [Registry.handle?_setTable, hh])
  simp only [transact, StateT.run_bind, handle_run hh, served_run ht, bind_eq, done_bind, bind_bind,
    hset]
  rfl

section Dialogues

variable {δ : Type} [BlockDevice δ] [Allocator σ] {reg' : Registry σ} {w w' : World δ} {x : α}

/-- Behind a run with the allocator of a table there is a dialogue of the program. -/
theorem served_takes {p : Program Store α}
    (hrun : ((served t p).run reg).run w = (.ok (x, reg'), w')) :
    ∃ (e : InodeTable σ) (a' : σ) (dialogue : Dialogue Store), reg.table? t = some e ∧
      p.Ends dialogue x ∧ dialogue.Takes e.allocator w a' w' ∧
      reg' = reg.setTable t { e with allocator := a' } := by
  cases ht : reg.table? t with
  | none =>
    simp only [served, table, StateT.run_bind, StateT.run_get, StateT.run_lift, pure_eq, bind_eq,
      done_bind, ht, getOrBreach, breach, fault_bind] at hrun
    cases hrun
  | some e =>
    rw [served_run ht] at hrun
    obtain ⟨⟨y, a'⟩, w₁, hserve, hrest⟩ := run_bind_ok hrun
    cases hrest
    obtain ⟨dialogue, hends, htakes⟩ := Dialogue.exists_takes hserve
    exact ⟨e, a', dialogue, rfl, hends, htakes, rfl⟩

theorem transact_takes {p : OpenInode → Program Store (α × OpenInode)}
    (hrun : ((transact h p).run reg).run w = (.ok (x, reg'), w')) :
    ∃ (entry : Handle) (e : InodeTable σ) (f : OpenInode) (a' : σ) (dialogue : Dialogue Store),
      reg.handle? h = some entry ∧ reg.table? entry.home = some e ∧
      (p entry.inode).Ends dialogue (x, f) ∧ dialogue.Takes e.allocator w a' w' ∧
      reg' = (reg.setTable entry.home { e with allocator := a' }).setHandle h
        { entry with inode := f } := by
  cases hh : reg.handle? h with
  | none =>
    simp only [transact, handle, StateT.run_bind, StateT.run_get, StateT.run_lift, pure_eq, bind_eq,
      done_bind, hh, getOrBreach, breach, fault_bind] at hrun
    cases hrun
  | some entry =>
    cases ht : reg.table? entry.home with
    | none =>
      simp only [transact, handle_run hh, served, table, StateT.run_bind, StateT.run_get,
        StateT.run_lift, pure_eq, bind_eq, done_bind, ht, getOrBreach, breach, fault_bind] at hrun
      cases hrun
    | some e =>
      rw [transact_run hh ht] at hrun
      obtain ⟨⟨⟨y, f⟩, a'⟩, w₁, hserve, hrest⟩ := run_bind_ok hrun
      cases hrest
      obtain ⟨dialogue, hends, htakes⟩ := Dialogue.exists_takes hserve
      exact ⟨entry, e, f, a', dialogue, rfl, ht, hends, htakes, rfl⟩

end Dialogues

end RegistryM

end InodeVolume

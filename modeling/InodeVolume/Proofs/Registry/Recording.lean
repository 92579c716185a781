import InodeVolume.Proofs.FileStore.Operations
import InodeVolume.Proofs.Inode.Rounds
import InodeVolume.Proofs.Program.Recording

/-!
The record of a table. What is done with an open inode asks for sectors in rounds or not at all;
only the last close of a removed inode gives sectors back beyond that.
-/
namespace InodeVolume

namespace Registry

variable {σ : Type} {reg reg' : Registry (Recorded σ)} {e e' : InodeTable (Recorded σ)}
  {h : HandleId} {entry : Handle} {c : List Call}

/-- The calls to the allocator of the first table. -/
def calls (reg : Registry (Recorded σ)) : List Call :=
  (reg.table? ⟨0⟩).elim [] fun e => e.allocator.calls

theorem calls_eq (ht : reg.table? ⟨0⟩ = some e) : reg.calls = e.allocator.calls := by
  rw [calls, ht, Option.elim_some]

theorem calls_setTable (ht : reg.table? ⟨0⟩ = some e) :
    (reg.setTable ⟨0⟩ e').calls = e'.allocator.calls := calls_eq (table?_setTable_self ht)

/-- The calls `c` have been made, and no handle has gone. -/
structure Records (reg : Registry (Recorded σ)) (c : List Call) (reg' : Registry (Recorded σ)) :
    Prop where
  calls_eq : reg'.calls = reg.calls ++ c
  handles_le : reg.handles.size ≤ reg'.handles.size

theorem Records.of_calls_eq (hcalls : reg'.calls = reg.calls)
    (hhandles : reg.handles.size ≤ reg'.handles.size) : Records reg [] reg' :=
  ⟨hcalls.trans (List.append_nil _).symm, hhandles⟩

theorem Records.refl (reg : Registry (Recorded σ)) : Records reg [] reg :=
  .of_calls_eq rfl (Nat.le_refl _)

theorem Records.trans {c' : List Call} {reg'' : Registry (Recorded σ)} (h : Records reg c reg')
    (h' : Records reg' c' reg'') : Records reg (c ++ c') reg'' where
  calls_eq := by rw [h'.calls_eq, h.calls_eq, List.append_assoc]
  handles_le := Nat.le_trans h.handles_le h'.handles_le

theorem records_setHandle : Records reg [] (reg.setHandle h entry) :=
  .of_calls_eq rfl (Nat.le_of_eq (Array.size_setIfInBounds).symm)

end Registry

namespace RegistryM

open Program Registry

variable {σ α β : Type} {reg reg' : Registry (Recorded σ)}
  {e : InodeTable (Recorded σ)} {h : HandleId} {t : Dialogue Disk} {x : α}

/-- However the program ends, it has asked the allocator of the first table in rounds. -/
def InRounds (p : RegistryM (Recorded σ) α) : Prop :=
  ∀ reg t x reg', (p.run reg).Ends t (x, reg') →
    ∃ rounds : List Round, reg.Records (rounds.flatMap Round.calls) reg'

theorem inRounds_pure (x : α) : InRounds (pure x : RegistryM (Recorded σ) α) := by
  intro reg t y reg' h
  obtain ⟨-, hx⟩ := ends_done.1 h
  cases hx
  exact ⟨[], .refl reg⟩

theorem InRounds.bind {p : RegistryM (Recorded σ) α} {k : α → RegistryM (Recorded σ) β}
    (hp : p.InRounds) (hk : ∀ x, (k x).InRounds) : (p >>= k).InRounds := by
  intro reg t y reg' h
  rw [StateT.run_bind] at h
  obtain ⟨_, _, ⟨x, reg₁⟩, -, h₁, h₂⟩ := ends_bind.1 h
  obtain ⟨rounds₁, hr₁⟩ := hp reg _ x reg₁ h₁
  obtain ⟨rounds₂, hr₂⟩ := hk x reg₁ _ y reg' h₂
  refine ⟨rounds₁ ++ rounds₂, ?_⟩
  rw [List.flatMap_append]
  exact hr₁.trans hr₂

/-- A program that uses the disk alone leaves the registry alone. -/
theorem lift_ends {p : Program Disk α}
    (hends : ((StateT.lift p : RegistryM (Recorded σ) α).run reg).Ends t (x, reg')) :
    reg = reg' := by
  rw [StateT.run_lift] at hends
  obtain ⟨_, _, y, -, -, hdone⟩ := ends_bind.1 hends
  obtain ⟨-, hx⟩ := ends_done.1 hdone
  cases hx
  rfl

theorem inRounds_lift (p : Program Disk α) :
    InRounds (StateT.lift p : RegistryM (Recorded σ) α) := by
  intro reg t y reg' h
  rw [← lift_ends h]
  exact ⟨[], .refl reg⟩

theorem inRounds_get : InRounds (get : RegistryM (Recorded σ) (Registry (Recorded σ))) := by
  intro reg t y reg' h
  obtain ⟨-, hx⟩ := ends_done.1 h
  cases hx
  exact ⟨[], .refl reg⟩

theorem inRounds_inode (h : HandleId) : InRounds (inode h : RegistryM (Recorded σ) OpenInode) :=
  (inRounds_get.bind fun _ => inRounds_lift _).bind fun _ => inRounds_pure _

theorem inRounds_setInode (h : HandleId) (f : OpenInode) :
    InRounds (setInode h f : RegistryM (Recorded σ) Unit) := by
  refine (inRounds_get.bind fun _ => inRounds_lift _).bind fun entry => ?_
  intro reg t y reg' h
  obtain ⟨-, hx⟩ := ends_done.1 h
  cases hx
  exact ⟨[], records_setHandle⟩

theorem openAt_ends {s : SectorId} {x : Except VolumeError HandleId}
    (ht : reg.table? ⟨0⟩ = some e) (hends : ((openAt ⟨0⟩ s).run reg).Ends t (x, reg')) :
    ∃ rounds : List Round, reg.Records (rounds.flatMap Round.calls) reg' := by
  have hget : (get : RegistryM (Recorded σ) (Registry (Recorded σ))).run reg = .done (reg, reg) :=
    rfl
  simp only [openAt, StateT.run_bind, table_run ht, hget, bind_eq, done_bind] at hends
  split at hends
  · rename_i h _
    exact ((inRounds_inode h).bind fun f => (inRounds_setInode h f.reopened).bind fun _ =>
      inRounds_pure _) reg t x reg' hends
  · rw [StateT.run_bind] at hends
    obtain ⟨_, _, ⟨record, reg₁⟩, -, hload, hrest⟩ := ends_bind.1 hends
    obtain rfl := lift_ends hload
    split at hrest
    · exact ((inRounds_lift _).bind fun _ => inRounds_pure _) reg _ x reg' hrest
    · -- The handle is entered in the table and in the registry at once.
      obtain ⟨rounds, hrounds⟩ := ((inRounds_lift _).bind fun _ => inRounds_pure _)
        { reg.setTable ⟨0⟩ { e with registered := e.registered ++ [⟨reg.handles.size⟩] } with
          handles := reg.handles.push ⟨⟨0⟩, .ofRecord s record⟩ } _ x reg' hrest
      have hentered : reg.Records [] { reg.setTable ⟨0⟩
          { e with registered := e.registered ++ [⟨reg.handles.size⟩] } with
            handles := reg.handles.push ⟨⟨0⟩, .ofRecord s record⟩ } := by
        refine .of_calls_eq ?_ ?_
        · exact (calls_setTable ht).trans (calls_eq ht).symm
        · simp
      exact ⟨rounds, hentered.trans hrounds⟩

variable [Allocator σ] {f : OpenInode}

theorem served_ends {p : Program Store α} (ht : reg.table? ⟨0⟩ = some e)
    (hends : ((served ⟨0⟩ p).run reg).Ends t (x, reg')) :
    ∃ dialogue : Dialogue Store, p.Ends dialogue x ∧ reg.Records dialogue.calls reg' := by
  rw [served_run ht] at hends
  obtain ⟨_, _, ⟨y, r⟩, -, hserve, hdone⟩ := ends_bind.1 hends
  obtain ⟨-, hx⟩ := ends_done.1 hdone
  cases hx
  obtain ⟨dialogue, hp, hcalls⟩ := Recorded.serve_ends hserve
  refine ⟨dialogue, hp, ?_, Nat.le_refl _⟩
  rw [calls_setTable ht, calls_eq ht]
  exact hcalls

theorem transact_ends {p : OpenInode → Program Store (α × OpenInode)}
    (hh : reg.handle? h = some ⟨⟨0⟩, f⟩) (ht : reg.table? ⟨0⟩ = some e)
    (hends : ((transact h p).run reg).Ends t (x, reg')) :
    ∃ (dialogue : Dialogue Store) (g : OpenInode), (p f).Ends dialogue (x, g) ∧
      reg.Records dialogue.calls reg' := by
  rw [transact_run hh ht] at hends
  obtain ⟨_, _, ⟨⟨y, g⟩, r⟩, -, hserve, hdone⟩ := ends_bind.1 hends
  obtain ⟨-, hx⟩ := ends_done.1 hdone
  cases hx
  obtain ⟨dialogue, hp, hcalls⟩ := Recorded.serve_ends hserve
  refine ⟨dialogue, g, hp, ?_, Nat.le_of_eq (Array.size_setIfInBounds).symm⟩
  change (reg.setTable ⟨0⟩ { e with allocator := r }).calls = _
  rw [calls_setTable ht, calls_eq ht]
  exact hcalls

theorem reclaim_ends (hh : reg.handle? h = some ⟨⟨0⟩, f⟩) (ht : reg.table? ⟨0⟩ = some e)
    {x : Unit} (hends : ((reclaim ⟨0⟩ h).run reg).Ends t (x, reg')) :
    ∃ ids, reg.Records (Call.releases ids ++ [.released f.sector]) reg' := by
  simp only [reclaim, StateT.run_bind, inode_run hh, bind_eq, done_bind] at hends
  obtain ⟨_, _, ⟨ids, reg₁⟩, -, hreachable, hends⟩ := ends_bind.1 hends
  obtain rfl := lift_ends hreachable
  rw [setInode_run hh, done_bind] at hends
  obtain ⟨_, _, ⟨_, reg₂⟩, -, hnote, hends⟩ := ends_bind.1 hends
  obtain rfl := lift_ends hnote
  obtain ⟨dialogue, hp, hrecords⟩ := served_ends (table?_setHandle.trans ht) hends
  obtain ⟨t₁, t₂, _, rfl, h₁, h₂⟩ := ends_bind.1 hp
  obtain rfl := Store.ends_releaseAll.1 h₁
  obtain rfl := ends_release.1 h₂
  rw [Dialogue.calls_append, Store.calls_releasing] at hrecords
  exact ⟨ids, records_setHandle.trans hrecords⟩

/-- The last close of a removed inode gives sectors back; another one asks for nothing. -/
theorem close_ends (hh : reg.handle? h = some ⟨⟨0⟩, f⟩) (ht : reg.table? ⟨0⟩ = some e)
    {x : Unit} (hends : ((close ⟨0⟩ h).run reg).Ends t (x, reg')) :
    if f.openers = 1 ∧ f.removed = true then
      ∃ ids, reg.Records (Call.releases ids ++ [.released f.sector]) reg'
    else reg.Records [] reg' := by
  simp only [close, StateT.run_bind, inode_run hh, bind_eq, done_bind] at hends
  obtain ⟨_, _, ⟨_, reg₁⟩, -, hrequire, hends⟩ := ends_bind.1 hends
  obtain rfl := lift_ends hrequire
  rw [setInode_run hh, done_bind] at hends
  by_cases hlast : f.openers = 1
  · have ht' : (reg.setHandle h ⟨⟨0⟩, { f with openers := f.openers - 1 }⟩).table? ⟨0⟩ = some e :=
      table?_setHandle.trans ht
    simp only [if_pos hlast, StateT.run_bind, unregister_run ht', bind_eq, done_bind] at hends
    obtain ⟨_, _, ⟨_, reg₂⟩, -, hnote, hends⟩ := ends_bind.1 hends
    obtain rfl := lift_ends hnote
    have hforgotten : reg.Records []
        ((reg.setHandle h ⟨⟨0⟩, { f with openers := f.openers - 1 }⟩).setTable ⟨0⟩
          { e with registered := e.registered.filter (· != h) }) := by
      refine .of_calls_eq ?_ (Nat.le_of_eq (Array.size_setIfInBounds).symm)
      exact (calls_setTable ht').trans (calls_eq ht).symm
    by_cases hremoved : f.removed = true
    · rw [if_pos ⟨hlast, hremoved⟩]
      rw [if_pos hremoved] at hends
      obtain ⟨ids, hrecords⟩ := reclaim_ends
        (handle?_setTable.trans (handle?_setHandle_self hh)) (table?_setTable_self ht') hends
      exact ⟨ids, hforgotten.trans hrecords⟩
    · rw [if_neg fun hboth => hremoved hboth.2]
      rw [if_neg hremoved] at hends
      obtain ⟨-, hx⟩ := ends_done.1 hends
      cases hx
      exact hforgotten
  · rw [if_neg fun hboth => hlast hboth.1]
    rw [if_neg hlast] at hends
    obtain ⟨-, hx⟩ := ends_done.1 hends
    cases hx
    exact records_setHandle

end RegistryM

namespace Serving

open Program Registry

variable {σ : Type} [Allocator σ] {size : Nat} {l : Lender (Recorded σ) size} {a : Recorded σ}
  {registered : List HandleId} {d : Image} {reg reg' : Registry (Recorded σ)} {st : FileStore}
  {s : SectorId} {o : Operation} {t : Dialogue Disk}

theorem close_records (hc : Serving l a registered d reg st) {h : HandleId} {f : OpenFile}
    (hf : st.opened h = some f) {x : Unit}
    (hends : (((Operation.close h).perform ⟨0⟩).run reg).Ends t (x, reg')) :
    if f.openers = 1 ∧ f.removed = true then
      ∃ ids, reg.Records (Call.releases ids ++ [.released f.inode]) reg'
    else reg.Records [] reg' :=
  RegistryM.close_ends (hc.handle hf) hc.table?_eq hends

/-- What is done with an inode that stays asks for sectors in rounds. -/
theorem records_of_on (hc : Serving l a registered d reg st) (hon : st.On s o) {x : o.Reply}
    (hends : ((o.perform ⟨0⟩).run reg).Ends t (x, reg')) : ∃ c, reg.Records c reg' ∧
      (s ∈ (st.after o x).live → ∃ rounds : List Round, c = rounds.flatMap Round.calls) := by
  have opened {h : HandleId} (hs : st.inode? h = some s) :
      ∃ f, st.opened h = some f ∧ f.inode = s := Option.map_eq_some_iff.1 hs
  have inRounds (hrounds : ∃ rounds : List Round, reg.Records (rounds.flatMap Round.calls) reg') :
      ∃ c, reg.Records c reg' ∧
        (s ∈ (st.after o x).live → ∃ rounds : List Round, c = rounds.flatMap Round.calls) := by
    obtain ⟨rounds, hrecords⟩ := hrounds
    exact ⟨_, hrecords, fun _ => ⟨rounds, rfl⟩⟩
  cases o with
  | openAt u => exact inRounds (RegistryM.openAt_ends hc.table?_eq hends)
  | reopen h =>
    exact inRounds (((RegistryM.inRounds_inode h).bind fun f =>
      RegistryM.inRounds_setInode h f.reopened) reg t x reg' hends)
  | close h =>
    obtain ⟨f, hf, rfl⟩ := opened hon
    have hclose := hc.close_records hf hends
    split at hclose
    · rename_i hlast
      obtain ⟨ids, hrecords⟩ := hclose
      refine ⟨_, hrecords, fun hlive => ?_⟩
      have hafter : st.after (.close h) x = _ := FileStore.closed_eq hf
      rw [hafter, if_pos hlast.1, if_pos hlast.2] at hlive
      exact absurd hlive (Finset.notMem_erase f.inode st.live)
    · exact inRounds ⟨[], hclose⟩
  | remove h =>
    exact inRounds (((RegistryM.inRounds_inode h).bind fun f =>
      (RegistryM.inRounds_setInode h f.markedRemoved).bind fun _ => RegistryM.inRounds_lift _)
      reg t x reg' hends)
  | denyWrite h =>
    exact inRounds (((RegistryM.inRounds_inode h).bind fun f =>
      (RegistryM.inRounds_lift f.denyWrite).bind fun g => RegistryM.inRounds_setInode h g)
      reg t x reg' hends)
  | allowWrite h =>
    exact inRounds (((RegistryM.inRounds_inode h).bind fun f =>
      (RegistryM.inRounds_lift f.allowWrite).bind fun g => RegistryM.inRounds_setInode h g)
      reg t x reg' hends)
  | sectorOf h position =>
    exact inRounds (((RegistryM.inRounds_inode h).bind fun f => RegistryM.inRounds_lift _)
      reg t x reg' hends)
  | readAt h offset length =>
    exact inRounds (((RegistryM.inRounds_inode h).bind fun f => RegistryM.inRounds_lift _)
      reg t x reg' hends)
  | writeAt h offset buffer =>
    obtain ⟨f, hf, -⟩ := opened hon
    obtain ⟨dialogue, g, hp, hrecords⟩ := RegistryM.transact_ends
      (p := fun f => f.writeAt offset buffer) (hc.handle hf) hc.table?_eq hends
    obtain ⟨rounds, hcalls⟩ := OpenInode.writeAt_inRounds hp
    exact inRounds ⟨rounds, hcalls ▸ hrecords⟩
  | extend h target =>
    obtain ⟨f, hf, -⟩ := opened hon
    obtain ⟨dialogue, g, hp, hrecords⟩ := RegistryM.transact_ends
      (p := fun f => f.extend target) (hc.handle hf) hc.table?_eq hends
    obtain ⟨rounds, hcalls⟩ := OpenInode.extend_inRounds hp
    exact inRounds ⟨rounds, hcalls ▸ hrecords⟩
  | status h =>
    exact inRounds (((RegistryM.inRounds_inode h).bind fun f => RegistryM.inRounds_pure _)
      reg t x reg' hends)
  | _ => exact hon.elim

/-- Every operation adds to the record. -/
theorem records_of_ends (hc : Serving l a registered d reg st) (hlegal : st.Legal o) {x : o.Reply}
    (hends : ((o.perform ⟨0⟩).run reg).Ends t (x, reg')) : ∃ c, reg.Records c reg' := by
  have on {u : SectorId} (hon : st.On u o) : ∃ c, reg.Records c reg' := by
    obtain ⟨c, hrecords, -⟩ := hc.records_of_on hon hends
    exact ⟨c, hrecords⟩
  have served {α : Type} {p : Program Store α} {y : α}
      (hends : ((RegistryM.served ⟨0⟩ p).run reg).Ends t (y, reg')) : ∃ c, reg.Records c reg' := by
    obtain ⟨dialogue, -, hrecords⟩ := RegistryM.served_ends hc.table?_eq hends
    exact ⟨dialogue.calls, hrecords⟩
  have handled {h : HandleId} (hopened : ∃ f, st.opened h = some f)
      (hon : ∀ s, st.inode? h = some s → st.On s o) : ∃ c, reg.Records c reg' := by
    obtain ⟨f, hf⟩ := hopened
    exact on (hon f.inode (FileStore.inode?_eq hf))
  cases o with
  | create length kind => exact served hends
  | createAt s length kind => exact served hends
  | openAt s => exact on (u := s) rfl
  | readAt h offset length => exact handled hlegal.1 fun _ => id
  | writeAt h offset buffer => exact handled hlegal.1 fun _ => id
  | allocate => exact served hends
  | allocateMany count => exact served hends
  | release s => exact served hends
  | _ => exact handled hlegal fun _ => id

end Serving

end InodeVolume

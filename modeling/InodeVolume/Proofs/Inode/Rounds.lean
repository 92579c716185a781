import InodeVolume.Inode.Transfer
import InodeVolume.Proofs.Inode.Settling
import InodeVolume.Proofs.Program.Rounds

/-!
What the operations on inodes ask of an allocator. Each of them asks in rounds; one that fails has
given back all that it got, and has neither read nor written a sector.
-/
namespace InodeVolume

namespace Store

open Program Dialogue

variable {t : Dialogue Store} {length : Nat} {s : SectorId} {kind : InodeKind}
  {e : VolumeError}

theorem createAt_inRounds {x : Except VolumeError Unit} (h : (createAt s length kind).Ends t x) :
    t.InRounds := by
  rw [createAt] at h
  split at h
  · obtain ⟨rfl, -⟩ := ends_done.1 h
    exact .of_calls_eq_nil rfl
  · rw [bind_eq, ends_bind] at h
    obtain ⟨t₁, t₂, obtained, rfl, h₁, h₂⟩ := h
    refine (allocateMany_inRounds h₁).append ?_
    cases obtained with
    | error e =>
      obtain ⟨rfl, -⟩ := ends_done.1 h₂
      exact .of_calls_eq_nil rfl
    | ok ids =>
      simp only [liftM_eq, bind_eq, pure_eq, ends_bind, ends_done, ends_word] at h₂
      obtain ⟨_, _, _, rfl, h₃, _, _, _, rfl, ⟨-, rfl, -⟩, _, _, _, rfl, h₄, _, _, _, rfl, h₅, rfl,
        -⟩ := h₂
      apply InRounds.of_calls_eq_nil
      simp [calls_eq_nil_of_onStore h₃, calls_eq_nil_of_onStore h₄, calls_eq_nil_of_onStore h₅]

/-- An inode that cannot be created leaves nothing behind. -/
theorem createAt_undone (h : (createAt s length kind).Ends t (.error e)) : t.Undone := by
  rw [createAt] at h
  split at h
  · obtain ⟨rfl, -⟩ := ends_done.1 h
    exact undone_nil
  · rw [bind_eq, ends_bind] at h
    obtain ⟨t₁, t₂, obtained, rfl, h₁, h₂⟩ := h
    cases obtained with
    | error e =>
      obtain ⟨rfl, -⟩ := ends_done.1 h₂
      rw [List.append_nil]
      exact allocateMany_undone h₁
    | ok ids =>
      simp only [liftM_eq, bind_eq, pure_eq, ends_bind, ends_done] at h₂
      obtain ⟨_, _, _, -, -, _, _, _, -, -, _, _, _, -, -, _, _, _, -, -, -, he⟩ := h₂
      cases he

theorem create_undone (h : (create length kind).Ends t (.error e)) : t.Undone := by
  rw [create, bind_eq, ends_bind] at h
  obtain ⟨_, t₂, answer, rfl, h₁, h₂⟩ := h
  obtain rfl := ends_allocate.1 h₁
  cases answer with
  | none =>
    obtain ⟨rfl, -⟩ := ends_done.1 h₂
    exact ⟨trivial, rfl⟩
  | some s =>
    simp only [bind_eq, ends_bind] at h₂
    obtain ⟨t₃, t₄, created, rfl, h₃, h₄⟩ := h₂
    cases created with
    | ok u =>
      obtain ⟨-, he⟩ := ends_done.1 h₄
      cases he
    | error e =>
      simp only [pure_eq, ends_bind, ends_done] at h₄
      obtain ⟨_, _, _, rfl, h₅, rfl, -⟩ := h₄
      obtain rfl := ends_release.1 h₅
      obtain ⟨hquiet, hsettles⟩ := createAt_undone h₃
      refine ⟨?_, ?_⟩
      · simp only [quiet_append, List.append_nil]
        exact ⟨trivial, hquiet, trivial⟩
      · -- The record sector is owned while the inode is created, and given back behind all others.
        have hown : Call.Settles [s] [.released s] := Call.settles_releases (.refl [s])
        simp only [calls_append, List.append_nil]
        exact hsettles.append hown

end Store

namespace OpenInode

open Program Dialogue

variable {t : Dialogue Store} {f g : OpenInode} {blocks target position offset written : Nat}
  {bytes : Bytes} {e : VolumeError}

theorem growTo_inRounds {x : Except VolumeError OpenInode} (h : (f.growTo blocks).Ends t x) :
    t.InRounds := by
  rw [growTo] at h
  split at h
  · obtain ⟨rfl, -⟩ := ends_done.1 h
    exact .of_calls_eq_nil rfl
  · simp only [difference, bind_eq, pure_eq, ends_bind, ends_require, ends_done] at h
    obtain ⟨_, _, _, rfl, ⟨_, _, _, rfl, ⟨-, rfl⟩, rfl, -⟩, t₁, t₂, obtained, rfl, h₁, h₂⟩ := h
    refine (Store.allocateMany_inRounds h₁).append ?_
    cases obtained with
    | error e =>
      obtain ⟨rfl, -⟩ := ends_done.1 h₂
      exact .of_calls_eq_nil rfl
    | ok ids =>
      simp only [liftM_eq, ends_bind, ends_done] at h₂
      obtain ⟨_, _, _, rfl, h₃, _, _, _, rfl, h₄, rfl, -⟩ := h₂
      apply InRounds.of_calls_eq_nil
      simp [calls_eq_nil_of_onStore h₃, calls_eq_nil_of_onStore h₄]

theorem growTo_undone (h : (f.growTo blocks).Ends t (.error e)) : t.Undone := by
  rw [growTo] at h
  split at h
  · obtain ⟨-, he⟩ := ends_done.1 h
    cases he
  · simp only [difference, bind_eq, pure_eq, ends_bind, ends_require, ends_done] at h
    obtain ⟨_, _, _, rfl, ⟨_, _, _, rfl, ⟨-, rfl⟩, rfl, -⟩, t₁, t₂, obtained, rfl, h₁, h₂⟩ := h
    cases obtained with
    | error e =>
      obtain ⟨rfl, -⟩ := ends_done.1 h₂
      rw [List.nil_append, List.append_nil]
      exact Store.allocateMany_undone h₁
    | ok ids =>
      simp only [ends_bind, ends_done] at h₂
      obtain ⟨_, _, _, -, -, _, _, _, -, -, -, he⟩ := h₂
      cases he

theorem syncAt_ends {x : Except VolumeError SectorId × OpenInode}
    (h : (g.syncAt target).Ends t x) : t.calls = [] ∧ ∃ id, x = (.ok id, g) := by
  simp only [syncAt, liftM_eq, bind_eq, pure_eq, ends_bind, ends_done, ends_getOrBreach] at h
  obtain ⟨t₁, _, _, rfl, h₁, t₂, _, _, rfl, h₂, _, _, id, rfl, ⟨-, rfl⟩, rfl, rfl⟩ := h
  refine ⟨?_, id, rfl⟩
  simp [calls_eq_nil_of_onStore h₁, calls_eq_nil_of_onStore h₂]

/-- Once a file has grown, the rest of its extension asks for nothing more and does not fail. -/
theorem settle_ends {x : Except VolumeError SectorId × OpenInode}
    (h : (g.settle target).Ends t x) : t.calls = [] ∧ ∃ id g, x = (.ok id, g) := by
  rw [settle] at h
  split at h
  · rw [bind_eq, ends_bind] at h
    obtain ⟨t₁, t₂, g', rfl, h₁, h₂⟩ := h
    obtain ⟨hcalls, id, rfl⟩ := syncAt_ends h₂
    refine ⟨?_, id, g', rfl⟩
    rw [Dialogue.calls_append, calls_eq_nil_of_onStore h₁, hcalls, List.append_nil]
  · obtain ⟨hcalls, id, rfl⟩ := syncAt_ends h
    exact ⟨hcalls, id, g, rfl⟩

theorem extend_inRounds {x : Except VolumeError SectorId × OpenInode}
    (h : (f.extend target).Ends t x) : t.InRounds := by
  rw [extend_eq] at h
  split at h
  · obtain ⟨rfl, -⟩ := ends_done.1 h
    exact .of_calls_eq_nil rfl
  · rw [ends_bind] at h
    obtain ⟨t₁, t₂, grown, rfl, h₁, h₂⟩ := h
    refine (growTo_inRounds h₁).append ?_
    cases grown with
    | error e =>
      obtain ⟨rfl, -⟩ := ends_done.1 h₂
      exact .of_calls_eq_nil rfl
    | ok g => exact .of_calls_eq_nil (settle_ends h₂).1

/-- A file that cannot be extended stays as it is, in memory too. -/
theorem extend_undone (h : (f.extend target).Ends t (.error e, g)) : t.Undone ∧ g = f := by
  rw [extend_eq] at h
  split at h
  · obtain ⟨rfl, he⟩ := ends_done.1 h
    exact ⟨undone_nil, (Prod.mk.inj he).2⟩
  · rw [ends_bind] at h
    obtain ⟨t₁, t₂, grown, rfl, h₁, h₂⟩ := h
    cases grown with
    | error e =>
      obtain ⟨rfl, he⟩ := ends_done.1 h₂
      rw [List.append_nil]
      exact ⟨growTo_undone h₁, (Prod.mk.inj he).2⟩
    | ok g =>
      obtain ⟨-, id, g', he⟩ := settle_ends h₂
      cases (Prod.mk.inj he).1

theorem sectorFor_inRounds {x : Except VolumeError SectorId × OpenInode}
    (h : (f.sectorFor position).Ends t x) : t.InRounds := by
  rw [sectorFor, bind_eq, ends_bind] at h
  obtain ⟨t₁, t₂, place, rfl, h₁, h₂⟩ := h
  refine (InRounds.of_calls_eq_nil (calls_eq_nil_of_onStore h₁)).append ?_
  cases place with
  | some id =>
    obtain ⟨rfl, -⟩ := ends_done.1 h₂
    exact .of_calls_eq_nil rfl
  | none => exact extend_inRounds h₂

/-- A write asks for sectors in as many rounds as it extends the file, the last of which may be
refused. -/
theorem writeFrom_inRounds {x : Nat × OpenInode} (h : (f.writeFrom offset bytes written).Ends t x) :
    t.InRounds := by
  fun_induction writeFrom f offset bytes written generalizing t with
  | case1 f written hlt ih =>
    simp only [sum, liftM_eq, bind_eq, pure_eq, ends_bind, ends_require, ends_done] at h
    obtain ⟨_, _, start, rfl, ⟨_, _, _, rfl, ⟨-, rfl⟩, rfl, rfl⟩, t₁, t₂, ⟨place, g⟩, rfl, h₁,
      h₂⟩ := h
    refine (sectorFor_inRounds h₁).append ?_
    cases place with
    | error e =>
      simp only [ends_bind, ends_done] at h₂
      obtain ⟨_, _, _, rfl, h₃, rfl, -⟩ := h₂
      apply InRounds.of_calls_eq_nil
      simp [calls_eq_nil_of_onStore h₃]
    | ok id =>
      simp only [ends_bind] at h₂
      obtain ⟨t₃, _, _, rfl, h₃, t₄, t₅, g', rfl, h₄, h₅⟩ := h₂
      refine (InRounds.of_calls_eq_nil (calls_eq_nil_of_onStore h₃)).append ?_
      exact (InRounds.of_calls_eq_nil (calls_eq_nil_of_onStore h₄)).append (ih _ _ h₅)
  | case2 f written hlt =>
    obtain ⟨rfl, -⟩ := ends_done.1 h
    exact .of_calls_eq_nil rfl

theorem writeAt_inRounds {x : Nat × OpenInode} (h : (f.writeAt offset bytes).Ends t x) :
    t.InRounds := by
  rw [writeAt] at h
  split at h
  · simp only [liftM_eq, bind_eq, pure_eq, ends_bind, ends_done] at h
    obtain ⟨_, _, _, rfl, h₁, rfl, -⟩ := h
    apply InRounds.of_calls_eq_nil
    simp [calls_eq_nil_of_onStore h₁]
  · exact writeFrom_inRounds h

end OpenInode

end InodeVolume

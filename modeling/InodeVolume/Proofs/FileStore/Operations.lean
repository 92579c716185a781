import InodeVolume.Proofs.FileStore.Frame
import InodeVolume.Proofs.FileStore.Lifecycle
import InodeVolume.Proofs.FileStore.Transfer

/-!
Every legal operation, on any volume in use: it runs into the assertion that the store tells, before
it has done anything, or it replies what the store admits. All inodes but the one that it is on stay
as they are.
-/
namespace InodeVolume

namespace Serving

open Program

variable {σ : Type} [Allocator σ] {size : Nat} {l : Lender σ size} {a : σ}
  {registered : List HandleId} {d : Image} {reg : Registry σ} {st : FileStore} {o : Operation}

/-- Every operation spares what it is not on, at any moment. -/
theorem perform_spares (hc : Serving l a registered d reg st) (hlegal : st.Legal o)
    (hrefusal : st.refusal o = none) :
    ((o.perform ⟨0⟩).run reg).Ensures (· < size) (fun _ d₂ => Agree (st.spared d o) d d₂)
      (fun x d' => Answered l st o x d' ∧ Agree (st.spared d o) d d') d := by
  have along {G : Image → Image → Prop} {R : Finset SectorId}
      (h : ((o.perform ⟨0⟩).run reg).Ensures (· < size) G (Answered l st o) d)
      (hR : st.spared d o = R) (hG : ∀ d₁ d₂, G d₁ d₂ → Agree R d d₂) :
      ((o.perform ⟨0⟩).run reg).Ensures (· < size) (fun _ d₂ => Agree (st.spared d o) d d₂)
        (fun x d' => Answered l st o x d' ∧ Agree (st.spared d o) d d') d := by
    rw [hR]
    exact h.along hG (agree_refl R d)
  have silent (h : ((o.perform ⟨0⟩).run reg).Ensures (· < size) (fun _ _ => False)
      (Answered l st o) d) := along h rfl fun _ _ => False.elim
  have on {h : HandleId} {f : OpenFile} (hf : st.opened h = some f)
      (ho : st.spared d o = st.besides d (st.inode? h)) : st.spared d o = st.others d f.inode := by
    rw [ho, FileStore.inode?_eq hf, FileStore.besides]
  cases o with
  | create length kind => exact along (hc.create_ensures length kind) rfl fun _ _ hg => hg.1
  | createAt s length kind =>
    exact along (hc.createAt_ensures hlegal length kind) rfl fun _ _ hg => hg.1
  | openAt s => exact silent (hc.within hlegal ((hc.openAt_ensures hlegal).imp fun _ _ hx => hx.1))
  | reopen h =>
    obtain ⟨f, hf⟩ := hlegal
    exact silent (hc.reopen_ensures hf)
  | close h =>
    obtain ⟨f, hf⟩ := hlegal
    exact along (hc.close_ensures hf) (on hf rfl) fun _ _ hg => hg.1
  | remove h =>
    obtain ⟨f, hf⟩ := hlegal
    exact silent (hc.remove_ensures hf)
  | denyWrite h =>
    obtain ⟨f, hf⟩ := hlegal
    exact silent (hc.denyWrite_ensures hf (FileStore.lt_of_refusal_denyWrite hf hrefusal))
  | allowWrite h =>
    obtain ⟨f, hf⟩ := hlegal
    obtain ⟨hpos, hle⟩ := FileStore.le_of_refusal_allowWrite hf hrefusal
    exact silent (hc.allowWrite_ensures hf hpos hle)
  | sectorOf h position =>
    obtain ⟨f, hf⟩ := hlegal
    exact silent (hc.within (hc.live hf) (hc.sectorOf_ensures hf position))
  | readAt h offset length =>
    obtain ⟨⟨f, hf⟩, hlength⟩ := hlegal
    exact silent (hc.within (hc.live hf) (hc.readAt_ensures hf offset hlength))
  | writeAt h offset buffer =>
    obtain ⟨⟨f, hf⟩, hoffset⟩ := hlegal
    exact along (hc.writeAt_ensures hf hoffset buffer) (on hf rfl) fun _ _ hg => hg.agree
  | extend h target =>
    obtain ⟨f, hf⟩ := hlegal
    exact along (hc.extend_ensures hf target) (on hf rfl) fun _ _ hg => hg.agree
  | status h =>
    obtain ⟨f, hf⟩ := hlegal
    exact silent (hc.status_ensures hf)
  | allocate => exact along hc.allocate_ensures rfl fun _ _ hg => hg.1
  | allocateMany count =>
    have hlimit := FileStore.lt_of_refusal_allocateMany hrefusal
    exact along (hc.allocateMany_ensures hlimit) rfl fun _ _ hg => hg.1
  | release s => exact along (hc.release_ensures hlegal) rfl fun _ _ hg => hg.1

theorem perform_ensures (hc : Serving l a registered d reg st) (hlegal : st.Legal o)
    (hrefusal : st.refusal o = none) :
    ((o.perform ⟨0⟩).run reg).Ensures (· < size) (fun _ _ => True) (Answered l st o) d :=
  (hc.perform_spares hlegal hrefusal).mono (fun _ hn => hn) (fun _ _ _ => trivial)
    fun _ _ hx => hx.1

theorem perform_refused (hc : Serving l a registered d reg st) (hlegal : st.Legal o) {b : Breach}
    (hrefusal : st.refusal o = some b) : (o.perform ⟨0⟩).run reg = breach b := by
  cases o with
  | denyWrite h =>
    obtain ⟨f, hf⟩ := hlegal
    simp only [FileStore.refusal, hf] at hrefusal
    split at hrefusal
    · cases hrefusal
    · rename_i hle
      obtain rfl := Option.some.inj hrefusal
      have hnot : ¬ (f.inodeOn d).denials + 1 ≤ (f.inodeOn d).openers := hle
      simp only [Operation.perform, RegistryM.denyWrite, StateT.run_bind,
        RegistryM.inode_run (hc.handle hf), bind_eq, done_bind, StateT.run_lift,
        OpenInode.denyWrite, require, if_neg hnot]
      rfl
  | allowWrite h =>
    obtain ⟨f, hf⟩ := hlegal
    simp only [FileStore.refusal, hf] at hrefusal
    simp only [Operation.perform, RegistryM.allowWrite, StateT.run_bind,
      RegistryM.inode_run (hc.handle hf), bind_eq, done_bind, StateT.run_lift,
      OpenInode.allowWrite, require]
    split at hrefusal
    · rename_i hzero
      obtain rfl := Option.some.inj hrefusal
      have hnot : ¬ 0 < (f.inodeOn d).denials := Nat.not_lt.2 (Nat.le_of_eq hzero)
      rw [if_neg hnot]
      rfl
    · rename_i hdenials
      split at hrefusal
      · cases hrefusal
      · rename_i hle
        obtain rfl := Option.some.inj hrefusal
        have hpos : 0 < (f.inodeOn d).denials := Nat.pos_of_ne_zero hdenials
        have hnot : ¬ (f.inodeOn d).denials ≤ (f.inodeOn d).openers := hle
        rw [if_pos hpos, if_neg hnot]
        rfl
  | allocateMany count =>
    simp only [FileStore.refusal] at hrefusal
    split at hrefusal
    · cases hrefusal
    · rename_i hlimit
      obtain rfl := Option.some.inj hrefusal
      simp only [Operation.perform, RegistryM.served_run hc.table?_eq, Store.allocateMany, require,
        if_neg hlimit]
      rfl
  | _ => cases hrefusal

end Serving

end InodeVolume

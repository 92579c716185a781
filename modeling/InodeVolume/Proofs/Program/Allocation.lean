import InodeVolume.Proofs.Program.Secures

/-!
Obtaining many sectors at once. It succeeds with as many new sectors as were asked for, or it
gives back what it got and leaves the program with what it owned before.
-/
namespace InodeVolume

/-- `G` grants every change that spares the sectors of `K`, as long as these are owned. -/
def Lenient (G : Finset SectorId → Image → Image → Prop) (K : Finset SectorId) (d : Image) : Prop :=
  ∀ F d₁ d₂, K ⊆ F → Agree K d d₁ → Agree K d d₂ → G F d₁ d₂

theorem Lenient.of_agree {G : Finset SectorId → Image → Image → Prop} {K : Finset SectorId}
    {d d' : Image} (h : Lenient G K d) (hd : Agree K d d') : Lenient G K d' :=
  fun F d₁ d₂ hF h₁ h₂ => h F d₁ d₂ hF (hd.trans h₁) (hd.trans h₂)

/-- The first of the sectors that were obtained is given back. -/
theorem erase_union_cons {K : Finset SectorId} {x : SectorId} {rest : List SectorId} (hK : x ∉ K)
    (hrest : x ∉ rest) : (K ∪ (x :: rest).toFinset).erase x = K ∪ rest.toFinset := by
  rw [List.toFinset_cons, Finset.union_insert, Finset.erase_insert]
  simp [hK, hrest]

namespace Store

open Program

variable {G : Finset SectorId → Image → Image → Prop} {K F : Finset SectorId} {d : Image}

theorem releaseAll_secures {ids : List SectorId} (hG : Lenient G K d) (hnodup : ids.Nodup)
    (hids : ∀ x ∈ ids, x ∉ K) :
    (releaseAll ids).Secures G (fun _ d' F' => Agree K d d' ∧ F' = K) d (K ∪ ids.toFinset) := by
  induction ids generalizing d with
  | nil => exact ⟨agree_refl K d, by simp⟩
  | cons x rest ih =>
    obtain ⟨hx, hrest⟩ := List.nodup_cons.1 hnodup
    rw [releaseAll, bind_eq, secures_bind, secures_release,
      erase_union_cons (hids x (by simp)) hx]
    refine ⟨by simp, fun d' hd => ⟨fun d'' hd' => ?_, ?_⟩⟩
    · exact hG _ _ _ Finset.subset_union_left (hd.mono Finset.subset_union_left)
        (hd'.mono Finset.subset_union_left)
    · have hK : Agree K d d' := hd.mono Finset.subset_union_left
      refine (ih (hG.of_agree hK) hrest fun y hy => hids y (by simp [hy])).imp ?_
      rintro _ d'' F' ⟨hd', hF'⟩
      exact ⟨hK.trans hd', hF'⟩

/-- What many sectors at once are: none, or as many as wanted, all of them new. -/
def Obtained (K : Finset SectorId) (count : Nat) (F : Finset SectorId) :
    Except VolumeError (List SectorId) → Prop
  | .error e => e = .noSpace ∧ F = K
  | .ok ids => ids.Nodup ∧ ids.length = count ∧ (∀ x ∈ ids, x ∉ K) ∧ F = K ∪ ids.toFinset

theorem gather_secures (wanted left : Nat) {obtained : List SectorId} (hG : Lenient G K d)
    (hnodup : obtained.Nodup) (hobtained : ∀ x ∈ obtained, x ∉ K) :
    (gather wanted obtained left).Secures G
      (fun x d' F' => Agree K d d' ∧ Obtained K (obtained.length + left) F' x)
      d (K ∪ obtained.toFinset) := by
  induction left generalizing d obtained with
  | zero =>
    refine ⟨agree_refl K d, List.nodup_reverse.2 hnodup, by simp, ?_, by simp⟩
    intro x hx
    exact hobtained x (by simpa using hx)
  | succ left ih =>
    rw [gather, bind_eq, secures_bind, secures_allocate]
    intro d' hd
    have hK : Agree K d d' := hd.mono Finset.subset_union_left
    refine ⟨fun d'' hd' => ?_, ?_, fun x hx => ?_⟩
    · exact hG _ _ _ Finset.subset_union_left hK (hd'.mono Finset.subset_union_left)
    · simp only [liftM_eq, bind_eq, pure_eq, secures_bind, secures_onStore, ensures_note,
        secures_done]
      have hrelease := releaseAll_secures (hG.of_agree hK) (List.nodup_reverse.2 hnodup)
        fun y hy => hobtained y (by simpa using hy)
      rw [List.toFinset_reverse] at hrelease
      refine hrelease.imp ?_
      rintro _ d'' F' ⟨hd', rfl⟩
      exact ⟨hK.trans hd', rfl, rfl⟩
    · simp only [Finset.mem_union, List.mem_toFinset, not_or] at hx
      have hset : insert x (K ∪ obtained.toFinset) = K ∪ (x :: obtained).toFinset := by simp
      have hcons : ∀ y ∈ x :: obtained, y ∉ K := by
        intro y hy
        rcases List.mem_cons.1 hy with rfl | hy
        · exact hx.1
        · exact hobtained y hy
      rw [hset]
      refine (ih (hG.of_agree hK) (List.nodup_cons.2 ⟨hx.2, hnodup⟩) hcons).imp ?_
      rintro answer d'' F' ⟨hd', hanswer⟩
      refine ⟨hK.trans hd', ?_⟩
      rwa [List.length_cons, show obtained.length + 1 + left = obtained.length + (left + 1) by
        omega] at hanswer

theorem allocateMany_secures {count : Nat} (hcount : count < listLimit) (hG : Lenient G K d) :
    (allocateMany count).Secures G (fun x d' F' => Agree K d d' ∧ Obtained K count F' x) d K := by
  have h := gather_secures count count hG List.nodup_nil (by simp)
  simp only [List.toFinset_nil, Finset.union_empty, List.length_nil, Nat.zero_add] at h
  simp only [allocateMany, bind_eq, secures_bind, secures_require]
  exact ⟨hcount, h⟩

end Store

end InodeVolume

import InodeVolume.Proofs.Program.Rounds

/-!
The calls to an allocator as a ledger. An allocator may keep a record of its calls, which changes
nothing of what it does; over a lender the record accounts for the loans: every sector handed out
is new, every one given back is lent, and the loans are what these make of the first ones.
-/
namespace InodeVolume

namespace Call

variable {c c' : List Call} {ids : List SectorId} {U U' U'' : Finset SectorId}

/-- The calls take some loans to others. -/
def Moves : List Call → Finset SectorId → Finset SectorId → Prop
  | [], U, U' => U' = U
  | allocated none :: c, U, U' => Moves c U U'
  | allocated (some id) :: c, U, U' => id ∉ U ∧ Moves c (insert id U) U'
  | released id :: c, U, U' => id ∈ U ∧ Moves c (U.erase id) U'

theorem moves_append : Moves (c ++ c') U U'' ↔ ∃ U', Moves c U U' ∧ Moves c' U' U'' := by
  induction c generalizing U with
  | nil => simp [Moves]
  | cons call c ih =>
    cases call with
    | allocated answer =>
      cases answer with
      | none => exact ih
      | some id => simp only [List.cons_append, Moves, ih, and_assoc, exists_and_left]
    | released id => simp only [List.cons_append, Moves, ih, and_assoc, exists_and_left]

theorem Moves.unique (h : Moves c U U') (h' : Moves c U U'') : U' = U'' := by
  induction c generalizing U with
  | nil => exact Eq.trans h (Eq.symm h')
  | cons call c ih =>
    cases call with
    | allocated answer =>
      cases answer with
      | none => exact ih h h'
      | some id => exact ih h.2 h'.2
    | released id => exact ih h.2 h'.2

theorem Moves.grants (h : Moves (grants ids) U U') :
    U' = U ∪ ids.toFinset ∧ ids.Nodup ∧ Disjoint ids.toFinset U := by
  induction ids generalizing U with
  | nil =>
    have heq : U' = U := h
    simp [heq]
  | cons id ids ih =>
    obtain ⟨hid, hrest⟩ := h
    obtain ⟨rfl, hnodup, hdisjoint⟩ := ih hrest
    rw [Finset.disjoint_insert_right, List.mem_toFinset] at hdisjoint
    refine ⟨?_, List.nodup_cons.2 ⟨hdisjoint.1, hnodup⟩, ?_⟩
    · rw [List.toFinset_cons, Finset.union_insert, Finset.insert_union]
    · rw [List.toFinset_cons]
      exact Finset.disjoint_insert_left.2 ⟨hid, hdisjoint.2⟩

/-- What is given back was lent, and nothing is given back twice. -/
theorem Moves.releases (h : Moves (releases ids) U U') :
    U' = U \ ids.toFinset ∧ ids.Nodup ∧ ids.toFinset ⊆ U := by
  induction ids generalizing U with
  | nil =>
    have heq : U' = U := h
    simp [heq]
  | cons id ids ih =>
    obtain ⟨hid, hrest⟩ := h
    obtain ⟨rfl, hnodup, hsubset⟩ := ih hrest
    rw [Finset.subset_erase] at hsubset
    refine ⟨?_, List.nodup_cons.2 ⟨fun hmem => hsubset.2 (List.mem_toFinset.2 hmem), hnodup⟩, ?_⟩
    · rw [List.toFinset_cons, Finset.sdiff_insert, Finset.erase_sdiff_comm]
    · rw [List.toFinset_cons]
      exact Finset.insert_subset hid hsubset.1

end Call

namespace Round

open Call

variable {rounds : List Round} {round : Round} {U U' : Finset SectorId}

/-- A round adds to the loans what it has kept. -/
theorem moves (h : Moves round.calls U U') :
    U' = U ∪ round.kept.toFinset ∧ round.kept.Nodup ∧ Disjoint round.kept.toFinset U := by
  cases round with
  | granted ids => exact h.grants
  | refused ids =>
    obtain ⟨U₁, hgrants, hreleases⟩ := moves_append.1 h
    obtain ⟨rfl, -, hdisjoint⟩ := hgrants.grants
    have heq : U' = (U ∪ ids.toFinset) \ ids.toFinset := (Moves.releases hreleases).1
    rw [Finset.union_sdiff_right, Finset.sdiff_eq_self_of_disjoint hdisjoint.symm] at heq
    simp [heq, kept]

/-- So do rounds in a row. -/
theorem moves_flatMap (h : Moves (rounds.flatMap calls) U U') :
    U' = U ∪ (rounds.flatMap kept).toFinset ∧ (rounds.flatMap kept).Nodup ∧
      Disjoint (rounds.flatMap kept).toFinset U := by
  induction rounds generalizing U with
  | nil =>
    have heq : U' = U := h
    simp [heq]
  | cons round rounds ih =>
    rw [List.flatMap_cons] at h
    obtain ⟨U₁, hround, hrest⟩ := moves_append.1 h
    obtain ⟨rfl, hnodup₁, hdisjoint₁⟩ := moves hround
    obtain ⟨rfl, hnodup₂, hdisjoint₂⟩ := ih hrest
    rw [Finset.disjoint_union_right] at hdisjoint₂
    rw [List.flatMap_cons, List.toFinset_append]
    refine ⟨Finset.union_assoc _ _ _, ?_, ?_⟩
    · refine List.nodup_append'.2 ⟨hnodup₁, hnodup₂, ?_⟩
      intro x hx hx'
      exact (Finset.disjoint_left.1 hdisjoint₂.2) (List.mem_toFinset.2 hx') (List.mem_toFinset.2 hx)
    · exact Finset.disjoint_union_left.2 ⟨hdisjoint₁, hdisjoint₂.1⟩

end Round

/-- An allocator that keeps a record of its calls, the first one first. -/
structure Recorded (σ : Type) where
  inner : σ
  calls : List Call

namespace Recorded

open Program

variable {σ : Type} [Allocator σ]

instance : Allocator (Recorded σ) where
  allocate r := do
    let x ← Allocator.allocate r.inner
    return (x.1, ⟨x.2, r.calls ++ [.allocated x.1]⟩)
  release r id := do
    let a ← Allocator.release r.inner id
    return ⟨a, r.calls ++ [.released id]⟩

variable {α : Type} {p : Program Store α} {x : α} {t : Dialogue Disk} {r r' : Recorded σ}

/-- A record changes nothing of what is done. -/
theorem serve_inner (p : Program Store α) (r : Recorded σ) :
    ((p.serve r).bind fun x => done (x.1, x.2.inner)) = p.serve r.inner := by
  induction p generalizing r with
  | done a => rfl
  | fault f => rfl
  | ask q next ih =>
    cases q with
    | disk q => simp only [serve, ask_bind, ih]
    | allocate => simp only [serve, Allocator.allocate, bind_eq, pure_eq, bind_bind, done_bind, ih]
    | release id => simp only [serve, Allocator.release, bind_eq, pure_eq, bind_bind, done_bind, ih]

theorem serve_ensures {A : Nat → Prop} {G : Image → Image → Prop} {Q : α × σ → Image → Prop}
    {d : Image} (h : (p.serve r.inner).Ensures A G Q d) :
    (p.serve r).Ensures A G (fun x d' => Q (x.1, x.2.inner) d') d := by
  rw [← serve_inner, ensures_bind] at h
  exact h

/-- The record grows by the calls of the program. -/
theorem serve_ends (h : (p.serve r).Ends t (x, r')) :
    ∃ dialogue : Dialogue Store, p.Ends dialogue x ∧ r'.calls = r.calls ++ dialogue.calls := by
  induction p generalizing r t with
  | done a =>
    obtain ⟨-, hx⟩ := ends_done.1 h
    cases hx
    exact ⟨[], .done x, (List.append_nil _).symm⟩
  | fault f => exact absurd h ends_fault
  | ask q next ih =>
    cases q with
    | disk q =>
      obtain ⟨y, t', -, hnext⟩ := ends_ask.1 h
      obtain ⟨dialogue, hends, hcalls⟩ := ih y hnext
      exact ⟨⟨.disk q, y⟩ :: dialogue, .ask (I := Store) (.disk q) y hends, hcalls⟩
    | allocate =>
      simp only [serve, Allocator.allocate, bind_eq, pure_eq, bind_bind, done_bind] at h
      obtain ⟨_, _, ⟨answer, a⟩, -, -, hnext⟩ := ends_bind.1 h
      obtain ⟨dialogue, hends, hcalls⟩ := ih answer hnext
      refine ⟨⟨.allocate, answer⟩ :: dialogue, .ask (I := Store) .allocate answer hends,
        hcalls.trans ?_⟩
      exact List.append_assoc _ _ _
    | release id =>
      simp only [serve, Allocator.release, bind_eq, pure_eq, bind_bind, done_bind] at h
      obtain ⟨_, _, a, -, -, hnext⟩ := ends_bind.1 h
      obtain ⟨dialogue, hends, hcalls⟩ := ih () hnext
      refine ⟨⟨.release id, ()⟩ :: dialogue, .ask (I := Store) (.release id) () hends,
        hcalls.trans ?_⟩
      exact List.append_assoc _ _ _

end Recorded

/-- A lender that keeps a record, which accounts for its loans: they began with those of `U₀`. -/
def Lender.recorded {σ : Type} [Allocator σ] {size : Nat} (l : Lender σ size)
    (U₀ : Finset SectorId) : Lender (Recorded σ) size where
  lends r d U := l.lends r.inner d U ∧ Call.Moves r.calls U₀ U
  marked := l.marked
  index_lt h hid := l.index_lt h.1 hid
  marked_of_lends h := l.marked_of_lends h.1
  write h hid := ⟨l.write h.1 hid, h.2⟩
  allocate {r d U} h := by
    simp only [Allocator.allocate, Program.bind_eq, Program.pure_eq, Program.ensures_bind,
      Program.ensures_done]
    refine (l.allocate h.1).imp ?_
    rintro ⟨_ | id, a'⟩ d' ⟨hd, hpost⟩
    · exact ⟨hd, hpost, Call.moves_append.2 ⟨U, h.2, rfl⟩⟩
    · exact ⟨hd, hpost.1, hpost.2, Call.moves_append.2 ⟨U, h.2, hpost.1, rfl⟩⟩
  release {r d U id} h hid := by
    simp only [Allocator.release, Program.bind_eq, Program.pure_eq, Program.ensures_bind,
      Program.ensures_done]
    refine (l.release h.1 hid).imp ?_
    rintro a' d' ⟨hd, hpost⟩
    exact ⟨hd, hpost, Call.moves_append.2 ⟨U, h.2, hid, rfl⟩⟩

end InodeVolume

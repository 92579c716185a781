import InodeVolume.Proofs.Allocation.Restoration
import InodeVolume.Proofs.Program.Allocation

/-!
What a free map hands out. It is always the lowest sector that is not taken. So the sectors that it
hands out in a row, while none is given back, depend on nothing but on how many they are and on
what was taken before; and a request for many that it cannot meet leaves no trace.
-/
namespace InodeVolume

namespace Program

section Served

variable {σ α β : Type} [Allocator σ] {A : Nat → Prop} {G : Image → Image → Prop} {s : σ}
  {d : Image}

theorem ensures_serve_done {a : α} {Q : α × σ → Image → Prop} :
    ((done a).serve s).Ensures A G Q d ↔ Q (a, s) d := Iff.rfl

theorem ensures_serve_bind {p : Program Store α} {k : α → Program Store β}
    {Q : β × σ → Image → Prop} : ((p.bind k).serve s).Ensures A G Q d ↔
      (p.serve s).Ensures A G (fun x d' => ((k x.1).serve x.2).Ensures A G Q d') d := by
  rw [serve_bind, ensures_bind]

theorem ensures_serve_onStore {p : Program Disk α} {Q : α × σ → Image → Prop} :
    (p.onStore.serve s).Ensures A G Q d ↔ p.Ensures A G (fun a d' => Q (a, s) d') d := by
  rw [serve_onStore, ensures_bind]
  rfl

theorem ensures_serve_require {P : Prop} [Decidable P] {b : Breach}
    {Q : Unit × σ → Image → Prop} :
    ((require P b : Program Store Unit).serve s).Ensures A G Q d ↔ P ∧ Q ((), s) d := by
  by_cases h : P <;> simp [require, breach, serve, h]

theorem ensures_serve_getOrBreach {o : Option α} {b : Breach} {Q : α × σ → Image → Prop} :
    ((getOrBreach o b : Program Store α).serve s).Ensures A G Q d ↔
      ∃ a, o = some a ∧ Q (a, s) d := by
  cases o <;> simp [getOrBreach, breach, serve]

theorem ensures_serve_word {n : Nat} {Q : UInt32 × σ → Image → Prop} :
    ((word n : Program Store UInt32).serve s).Ensures A G Q d ↔
      n < 0x100000000 ∧ Q (UInt32.ofNat n, s) d := by
  rw [word, bind_eq, ensures_serve_bind, ensures_serve_require]
  rfl

theorem ensures_serve_sum {m n : Nat} {Q : Nat × σ → Image → Prop} :
    ((sum m n : Program Store Nat).serve s).Ensures A G Q d ↔
      m + n < 0x10000000000000000 ∧ Q (m + n, s) d := by
  rw [sum, bind_eq, ensures_serve_bind, ensures_serve_require]
  rfl

theorem ensures_serve_difference {m n : Nat} {Q : Nat × σ → Image → Prop} :
    ((difference m n : Program Store Nat).serve s).Ensures A G Q d ↔ n ≤ m ∧ Q (m - n, s) d := by
  rw [difference, bind_eq, ensures_serve_bind, ensures_serve_require]
  rfl

theorem ensures_serve_allocate {Q : Option SectorId × σ → Image → Prop} :
    (Store.allocate.serve s).Ensures A G Q d ↔ (Allocator.allocate s).Ensures A G Q d :=
  ensures_bind

theorem ensures_serve_release {id : SectorId} {Q : Unit × σ → Image → Prop} :
    ((Store.release id).serve s).Ensures A G Q d ↔
      (Allocator.release s id).Ensures A G (fun s' d' => Q ((), s') d') d :=
  ensures_bind

end Served

end Program

namespace FreeMap

/-- The lowest sector that is not taken. -/
def NextFree (m : FreeMap) (U : Finset SectorId) (id : SectorId) : Prop :=
  ¬ m.Taken U id.index ∧ ∀ n, n < id.index → m.Taken U n

/-- Sectors that the map hands out in a row, while none is given back. -/
def HandsOut (m : FreeMap) : Finset SectorId → List SectorId → Prop
  | _, [] => True
  | U, id :: rest => m.NextFree U id ∧ m.HandsOut (insert id U) rest

variable {m : FreeMap} {size : Nat} {d : Image} {U : Finset SectorId} {id : SectorId}
  {ids more : List SectorId}

theorem NextFree.notMem (h : m.NextFree U id) : id ∉ U := fun hid =>
  h.1 (Or.inr (owned_of_mem hid))

theorem NextFree.unique {x : SectorId} (h : m.NextFree U id) (hx : m.NextFree U x) : id = x := by
  rcases Nat.lt_trichotomy id.index x.index with hlt | heq | hgt
  · exact absurd (hx.2 _ hlt) h.1
  · exact SectorId.index_injective heq
  · exact absurd (h.2 _ hgt) hx.1

namespace HandsOut

theorem notMem (h : m.HandsOut U ids) : ∀ x ∈ ids, x ∉ U := by
  induction ids generalizing U with
  | nil => exact List.forall_mem_nil _
  | cons y rest ih =>
    refine List.forall_mem_cons.2 ⟨h.1.notMem, fun x hx hU => ?_⟩
    exact ih h.2 x hx (Finset.mem_insert_of_mem hU)

theorem nodup (h : m.HandsOut U ids) : ids.Nodup := by
  induction ids generalizing U with
  | nil => exact List.nodup_nil
  | cons y rest ih =>
    refine List.nodup_cons.2 ⟨fun hy => ?_, ih h.2⟩
    exact h.2.notMem y hy (Finset.mem_insert_self y U)

theorem append_iff : m.HandsOut U (ids ++ more) ↔
    m.HandsOut U ids ∧ m.HandsOut (U ∪ ids.toFinset) more := by
  induction ids generalizing U with
  | nil => simp [HandsOut]
  | cons y rest ih =>
    rw [List.cons_append, HandsOut, HandsOut, ih, and_assoc, List.toFinset_cons,
      Finset.union_insert, Finset.insert_union]

/-- How many there are decides which they are. -/
theorem unique (h : m.HandsOut U ids) (h' : m.HandsOut U more)
    (hlength : ids.length = more.length) : ids = more := by
  induction ids generalizing U more with
  | nil => exact (List.length_eq_zero_iff.1 hlength.symm).symm
  | cons x rest ih =>
    cases more with
    | nil => cases hlength
    | cons y more =>
      obtain rfl := h.1.unique h'.1
      rw [ih h.2 h'.2 (Nat.succ.inj hlength)]

end HandsOut

open Program

theorem allocate_next (hm : m.Fits size) (h : m.Tracks d U) :
    (Allocator.allocate m).Ensures m.InMap (fun _ _ => True)
      (fun x d' => x.2 = m ∧ match x.1 with
        | none => m.Tracks d' U
        | some id => m.NextFree U id ∧ m.Tracks d' (insert id U)) d := by
  simp only [Allocator.allocate, bind_eq, pure_eq, ensures_bind, ensures_done]
  refine (allocate_ensures hm h).mono (fun _ => id) (fun _ _ _ => trivial) ?_
  rintro (_ | id) d' ⟨-, hpost⟩
  · exact ⟨trivial, hpost.1⟩
  · obtain ⟨hid, htracks, hlowest⟩ := hpost
    have hle := htracks.reserved_le (Finset.mem_insert_self id U)
    refine ⟨trivial, ⟨?_, hlowest⟩, htracks⟩
    rintro (hlt | ho)
    · exact Nat.not_lt.2 hle hlt
    · exact not_owned_of_not_mem hid ho

/-- What was obtained is given back. -/
theorem releaseAll_ensures (hm : m.Fits size) (h : m.Tracks d (U ∪ ids.toFinset))
    (hnodup : ids.Nodup) (hids : ∀ x ∈ ids, x ∉ U) :
    ((Store.releaseAll ids).serve m).Ensures m.InMap (fun _ _ => True)
      (fun x d' => x.2 = m ∧ m.Tracks d' U) d := by
  induction ids generalizing d with
  | nil => exact ⟨rfl, by simpa using h⟩
  | cons x rest ih =>
    obtain ⟨hx, hrest⟩ := List.nodup_cons.1 hnodup
    rw [Store.releaseAll, bind_eq, ensures_serve_bind, ensures_serve_release]
    simp only [Allocator.release, bind_eq, pure_eq, ensures_bind, ensures_done]
    refine (release_ensures hm h (by simp)).mono (fun _ => id) (fun _ _ _ => trivial) ?_
    rintro _ d' ⟨-, htracks⟩
    rw [erase_union_cons (hids x (by simp)) hx] at htracks
    exact ih htracks hrest fun y hy => hids y (by simp [hy])

theorem gather_ensures {obtained : List SectorId} (wanted left : Nat) (hm : m.Fits size)
    (h : m.Tracks d (U ∪ obtained.toFinset)) (hands : m.HandsOut U obtained.reverse) :
    ((Store.gather wanted obtained left).serve m).Ensures m.InMap (fun _ _ => True)
      (fun x d' => x.2 = m ∧ match x.1 with
        | .error _ => m.Tracks d' U
        | .ok ids => ids.length = obtained.length + left ∧ m.HandsOut U ids ∧
          m.Tracks d' (U ∪ ids.toFinset)) d := by
  induction left generalizing d obtained with
  | zero => exact ⟨rfl, List.length_reverse, hands, by rwa [List.toFinset_reverse]⟩
  | succ left ih =>
    rw [Store.gather, bind_eq, ensures_serve_bind, ensures_serve_allocate]
    refine (allocate_next hm h).imp ?_
    rintro ⟨_ | id, m'⟩ d' ⟨hm', hpost⟩
    · obtain rfl : m' = m := hm'
      have htracks : m'.Tracks d' (U ∪ obtained.reverse.toFinset) := by
        rwa [List.toFinset_reverse]
      have hrelease := releaseAll_ensures hm htracks hands.nodup hands.notMem
      simp only [liftM_eq, bind_eq, pure_eq, ensures_serve_bind, ensures_serve_onStore,
        ensures_note, ensures_serve_done]
      exact hrelease
    · obtain rfl : m' = m := hm'
      have hset : insert id (U ∪ obtained.toFinset) = U ∪ (id :: obtained).toFinset := by simp
      obtain ⟨hnext, htracks⟩ := hpost
      rw [hset] at htracks
      have hands' : m'.HandsOut U (id :: obtained).reverse := by
        rw [List.reverse_cons, HandsOut.append_iff, List.toFinset_reverse]
        exact ⟨hands, hnext, trivial⟩
      refine (ih htracks hands').imp ?_
      rintro ⟨e | ids, m''⟩ d'' hanswer
      · exact hanswer
      · obtain ⟨hm'', hlength, hrest⟩ := hanswer
        exact ⟨hm'', by rw [hlength, List.length_cons]; omega, hrest⟩

/-- Many sectors at once are those that the map hands out in a row; if they are refused, the image
is what it was. -/
theorem allocateMany_ensures {count : Nat} (hm : m.Fits size) (h : m.Tracks d U)
    (hcount : count < Store.listLimit) :
    ((Store.allocateMany count).serve m).Ensures m.InMap (fun _ _ => True)
      (fun x d' => x.2 = m ∧ (∀ n, ¬ m.InMap n → d' n = d n) ∧ match x.1 with
        | .error _ => d' = d
        | .ok ids => ids.length = count ∧ m.HandsOut U ids ∧ m.Tracks d' (U ∪ ids.toFinset)) d := by
  have hnone : m.Tracks d (U ∪ ([] : List SectorId).toFinset) := by simpa using h
  have hgather := gather_ensures count count hm hnone trivial
  rw [Store.allocateMany, bind_eq, ensures_serve_bind, ensures_serve_require]
  refine ⟨hcount, hgather.frame.mono (fun _ => id) (fun _ _ _ => trivial) ?_⟩
  rintro ⟨e | ids, m'⟩ d' ⟨⟨hm', hpost⟩, hkeep⟩
  · exact ⟨hm', hkeep, h.image_eq hpost hkeep⟩
  · exact ⟨hm', hkeep, hpost.1.trans (Nat.zero_add _), hpost.2⟩

end FreeMap

end InodeVolume

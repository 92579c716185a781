import InodeVolume.Proofs.Program.Dialogue
import InodeVolume.Proofs.Program.Secures

/-!
How a program obtains many sectors at once. In one round it asks until it has as many as it wants,
or until it is refused and gives back those of that round. Whatever an allocator answers, nothing
else is asked of it.
-/
namespace InodeVolume

namespace Call

variable {c c' : List Call} {ids owned others : List SectorId}

/-- The calls that hand out these sectors, in order. -/
def grants (ids : List SectorId) : List Call := ids.map fun id => allocated (some id)

/-- The calls that give these sectors back, in order. -/
def releases (ids : List SectorId) : List Call := ids.map released

@[simp] theorem handedOut_grants : handedOut (grants ids) = ids := by
  induction ids with
  | nil => rfl
  | cons id ids ih => exact congrArg (id :: ·) ih

@[simp] theorem givenBack_grants : givenBack (grants ids) = [] := by
  induction ids with
  | nil => rfl
  | cons id ids ih => exact ih

@[simp] theorem handedOut_releases : handedOut (releases ids) = [] := by
  induction ids with
  | nil => rfl
  | cons id ids ih => exact ih

@[simp] theorem givenBack_releases : givenBack (releases ids) = ids := by
  induction ids with
  | nil => rfl
  | cons id ids ih => exact congrArg (id :: ·) ih

@[simp] theorem handedOut_append : handedOut (c ++ c') = handedOut c ++ handedOut c' :=
  List.filterMap_append

@[simp] theorem givenBack_append : givenBack (c ++ c') = givenBack c ++ givenBack c' :=
  List.filterMap_append

/-- All of the sectors owned and all that are handed out are given back, each once, and nothing
else is. -/
def Settles : List SectorId → List Call → Prop
  | owned, [] => owned = []
  | owned, allocated none :: c => Settles owned c
  | owned, allocated (some id) :: c => Settles (id :: owned) c
  | owned, released id :: c => id ∈ owned ∧ Settles (owned.erase id) c

theorem settles_grants : Settles owned (grants ids ++ c) ↔ Settles (ids.reverse ++ owned) c := by
  induction ids generalizing owned with
  | nil => rfl
  | cons id ids ih =>
    rw [List.reverse_cons, List.append_assoc]
    exact ih

theorem settles_releases (h : ids.Perm owned) : Settles owned (releases ids) := by
  induction ids generalizing owned with
  | nil => exact h.nil_eq.symm
  | cons id ids ih =>
    obtain ⟨hid, hrest⟩ := List.cons_perm_iff_perm_erase.1 h
    exact ⟨hid, ih hrest⟩

theorem Settles.append (h : Settles owned c) (h' : Settles others c') :
    Settles (owned ++ others) (c ++ c') := by
  induction c generalizing owned with
  | nil =>
    have hnil : owned = [] := h
    rwa [hnil]
  | cons call c ih =>
    cases call with
    | allocated answer =>
      cases answer with
      | none =>
        have hrest : Settles owned c := h
        exact ih hrest
      | some id =>
        have hrest : Settles (id :: owned) c := h
        exact ih hrest
    | released id =>
      obtain ⟨hid, hrest⟩ := h
      refine ⟨List.mem_append_left _ hid, ?_⟩
      rw [List.erase_append_left _ hid]
      exact ih hrest

theorem Settles.perm (h : Settles owned c) : (givenBack c).Perm (owned ++ handedOut c) := by
  induction c generalizing owned with
  | nil =>
    have hnil : owned = [] := h
    rw [hnil]
    exact .nil
  | cons call c ih =>
    cases call with
    | allocated answer =>
      cases answer with
      | none =>
        have hrest : Settles owned c := h
        exact ih hrest
      | some id =>
        have hrest : Settles (id :: owned) c := h
        exact (ih hrest).trans List.perm_middle.symm
    | released id =>
      obtain ⟨hid, hrest⟩ := h
      have hperm := ((ih hrest).cons id).trans
        ((List.perm_cons_erase hid).symm.append_right (handedOut c))
      exact hperm

end Call

/-- An attempt to obtain many sectors at once. -/
inductive Round where
  | granted (ids : List SectorId)
  | refused (ids : List SectorId)

namespace Round

open Call

def calls : Round → List Call
  | granted ids => grants ids
  | refused ids => grants ids ++ allocated none :: releases ids

/-- The sectors that stay with the program. -/
def kept : Round → List SectorId
  | granted ids => ids
  | refused _ => []

/-- What was handed out was kept, or has been given back. -/
theorem handedOut_eq (round : Round) :
    handedOut round.calls = round.kept ++ givenBack round.calls := by
  cases round with
  | granted ids => simp [calls, kept]
  | refused ids =>
    have hrest : handedOut (allocated none :: releases ids) = handedOut (releases ids) := rfl
    have hback : givenBack (allocated none :: releases ids) = givenBack (releases ids) := rfl
    simp [calls, kept, hrest, hback]

theorem handedOut_perm (rounds : List Round) : (handedOut (rounds.flatMap calls)).Perm
    (rounds.flatMap kept ++ givenBack (rounds.flatMap calls)) := by
  induction rounds with
  | nil => exact .nil
  | cons round rounds ih =>
    simp only [List.flatMap_cons, handedOut_append, givenBack_append, handedOut_eq,
      List.append_assoc]
    refine List.Perm.append_left _ ?_
    exact (ih.append_left _).trans (List.perm_append_comm_assoc _ _ _)

theorem flatten_map_calls (rounds : List (List Round)) :
    (rounds.map (List.flatMap calls)).flatten = rounds.flatten.flatMap calls := by
  rw [← List.flatMap_def, ← List.flatMap_id, List.flatMap_assoc]
  rfl

theorem settles_refused (ids : List SectorId) : Settles [] (refused ids).calls := by
  rw [calls, settles_grants]
  rw [List.append_nil]
  exact settles_releases (List.reverse_perm ids).symm

/-- What comes of an attempt. -/
def Brings : Round → Except VolumeError (List SectorId) → Prop
  | granted ids, .ok ids' => ids' = ids
  | refused _, .error _ => True
  | _, _ => False

end Round

namespace Dialogue

variable {t t₁ t₂ : Dialogue Store}

def InRounds (t : Dialogue Store) : Prop :=
  ∃ rounds : List Round, t.calls = rounds.flatMap Round.calls

/-- Nothing is left of the dialogue but the notices that were given. -/
structure Undone (t : Dialogue Store) : Prop where
  quiet : t.Quiet
  settles : Call.Settles [] t.calls

theorem InRounds.of_calls_eq_nil (h : t.calls = []) : t.InRounds := ⟨[], h⟩

theorem InRounds.append (h₁ : t₁.InRounds) (h₂ : t₂.InRounds) : (t₁ ++ t₂).InRounds := by
  obtain ⟨rounds₁, h₁⟩ := h₁
  obtain ⟨rounds₂, h₂⟩ := h₂
  refine ⟨rounds₁ ++ rounds₂, ?_⟩
  rw [calls_append, List.flatMap_append, h₁, h₂]

theorem undone_nil : Undone [] := ⟨trivial, rfl⟩

end Dialogue

namespace Store

open Program Call

variable {t : Dialogue Store} {wanted left count : Nat} {obtained ids : List SectorId}
  {e : VolumeError}

/-- Each request for a sector is granted. -/
def granting (ids : List SectorId) : Dialogue Store := ids.map fun id => ⟨.allocate, some id⟩

/-- After these sectors, of more that were wanted, one is refused. -/
def refusing (ids : List SectorId) (wanted : Nat) : Dialogue Store :=
  [⟨.allocate, none⟩, ⟨.disk (.note (.outOfSpace ids.length wanted)), ()⟩]

/-- Each sector is given back. -/
def releasing (ids : List SectorId) : Dialogue Store := ids.map fun id => ⟨.release id, ()⟩

theorem ends_releaseAll {x : Unit} : (releaseAll ids).Ends t x ↔ t = releasing ids := by
  induction ids generalizing t with
  | nil => simp [releaseAll, releasing]
  | cons id ids ih =>
    simp only [releaseAll, bind_eq, ends_bind, ends_release, ih, releasing, List.map_cons]
    constructor
    · rintro ⟨_, _, _, rfl, rfl, rfl⟩
      rfl
    · intro h
      exact ⟨_, _, (), h, rfl, rfl⟩

/-- After what has been obtained, sectors are asked for until there are enough or one is refused. -/
def Gathered (wanted : Nat) (obtained : List SectorId) (left : Nat) (t : Dialogue Store) :
    Except VolumeError (List SectorId) → Prop
  | .ok ids => ∃ new, new.length = left ∧ ids = obtained.reverse ++ new ∧ t = granting new
  | .error e => e = .noSpace ∧ ∃ new, new.length < left ∧
    t = granting new ++ refusing (obtained.reverse ++ new) wanted ++
      releasing (obtained.reverse ++ new)

theorem gathered_zero {x : Except VolumeError (List SectorId)} :
    Gathered wanted obtained 0 t x ↔ t = [] ∧ x = .ok obtained.reverse := by
  cases x with
  | ok ids =>
    simp only [Gathered, List.length_eq_zero_iff, exists_eq_left, List.append_nil, Except.ok.injEq]
    exact and_comm
  | error e => simp [Gathered]

theorem reverse_cons_append {id : SectorId} {new : List SectorId} :
    (id :: obtained).reverse ++ new = obtained.reverse ++ id :: new := by
  rw [List.reverse_cons, List.append_assoc, List.singleton_append]

/-- The next sector is refused, or it is granted and the others are asked for. -/
theorem gathered_succ {x : Except VolumeError (List SectorId)} :
    Gathered wanted obtained (left + 1) t x ↔
      (t = refusing obtained.reverse wanted ++ releasing obtained.reverse ∧ x = .error .noSpace) ∨
        ∃ id t', t = ⟨.allocate, some id⟩ :: t' ∧ Gathered wanted (id :: obtained) left t' x := by
  cases x with
  | ok ids =>
    simp only [Gathered, reverse_cons_append, reduceCtorEq, and_false, false_or]
    constructor
    · rintro ⟨_ | ⟨id, new⟩, hlength, rfl, rfl⟩
      · cases hlength
      · exact ⟨id, _, rfl, new, Nat.succ.inj hlength, rfl, rfl⟩
    · rintro ⟨id, _, rfl, new, hlength, rfl, rfl⟩
      exact ⟨id :: new, congrArg Nat.succ hlength, rfl, rfl⟩
  | error e =>
    simp only [Gathered, reverse_cons_append, Except.error.injEq]
    constructor
    · rintro ⟨rfl, _ | ⟨id, new⟩, hlength, rfl⟩
      · rw [List.append_nil]
        exact .inl ⟨rfl, rfl⟩
      · exact .inr ⟨id, _, rfl, rfl, new, Nat.lt_of_succ_lt_succ hlength, rfl⟩
    · rintro (⟨rfl, rfl⟩ | ⟨id, _, rfl, rfl, new, hlength, rfl⟩)
      · refine ⟨rfl, [], Nat.zero_lt_succ left, ?_⟩
        rw [List.append_nil]
        rfl
      · exact ⟨rfl, id :: new, Nat.succ_lt_succ hlength, rfl⟩

theorem ends_gather {x : Except VolumeError (List SectorId)} :
    (gather wanted obtained left).Ends t x ↔ Gathered wanted obtained left t x := by
  induction left generalizing t obtained with
  | zero =>
    rw [gathered_zero]
    exact ends_done
  | succ left ih =>
    rw [gather, bind_eq, ends_bind, gathered_succ]
    constructor
    · rintro ⟨_, t₂, answer, rfl, h₁, h₂⟩
      obtain rfl := ends_allocate.1 h₁
      cases answer with
      | none =>
        simp only [liftM_eq, bind_eq, pure_eq, ends_bind, ends_done, ends_note,
          ends_releaseAll] at h₂
        obtain ⟨_, _, _, rfl, rfl, _, _, _, rfl, rfl, rfl, rfl⟩ := h₂
        rw [List.append_nil, List.length_reverse.symm]
        exact .inl ⟨rfl, rfl⟩
      | some id => exact .inr ⟨id, t₂, rfl, ih.1 h₂⟩
    · rintro (⟨rfl, rfl⟩ | ⟨id, t', rfl, h⟩)
      · rw [refusing, List.length_reverse]
        refine ⟨[⟨.allocate, none⟩], _, none, rfl, ends_allocate.2 rfl, ?_⟩
        simp only [liftM_eq, bind_eq, pure_eq, ends_bind, ends_done, ends_note, ends_releaseAll]
        exact ⟨[⟨.disk (.note (.outOfSpace obtained.length wanted)), ()⟩],
          releasing obtained.reverse, (), rfl, rfl,
          releasing obtained.reverse, [], (), (List.append_nil _).symm, rfl, rfl, trivial⟩
      · exact ⟨[⟨.allocate, some id⟩], t', some id, rfl, ends_allocate.2 rfl, ih.2 h⟩

/-- All that is asked of an allocator for many sectors, and what it has to answer for that. -/
theorem ends_allocateMany {x : Except VolumeError (List SectorId)} :
    (allocateMany count).Ends t x ↔ count < listLimit ∧ Gathered count [] count t x := by
  simp only [allocateMany, bind_eq, ends_bind, ends_require, ends_gather]
  constructor
  · rintro ⟨_, _, _, rfl, ⟨hcount, rfl⟩, h⟩
    exact ⟨hcount, h⟩
  · rintro ⟨hcount, h⟩
    exact ⟨[], t, (), rfl, ⟨hcount, rfl⟩, h⟩

@[simp] theorem quiet_granting : (granting ids).Quiet := by
  induction ids with
  | nil => trivial
  | cons id ids ih => exact ih

@[simp] theorem quiet_releasing : (releasing ids).Quiet := by
  induction ids with
  | nil => trivial
  | cons id ids ih => exact ih

@[simp] theorem calls_granting : (granting ids).calls = grants ids := by
  induction ids with
  | nil => rfl
  | cons id ids ih => exact congrArg (allocated (some id) :: ·) ih

@[simp] theorem calls_releasing : (releasing ids).calls = releases ids := by
  induction ids with
  | nil => rfl
  | cons id ids ih => exact congrArg (released id :: ·) ih

/-- Sectors that are asked for at once take one round. -/
theorem allocateMany_ends {x : Except VolumeError (List SectorId)}
    (h : (allocateMany count).Ends t x) :
    t.Quiet ∧ ∃ round : Round, t.calls = round.calls ∧ round.Brings x := by
  obtain ⟨-, h⟩ := ends_allocateMany.1 h
  cases x with
  | ok ids =>
    obtain ⟨new, -, hids, rfl⟩ := h
    exact ⟨quiet_granting, .granted new, calls_granting, hids⟩
  | error e =>
    obtain ⟨-, new, -, ht⟩ := h
    rw [List.reverse_nil, List.nil_append] at ht
    have hquiet : (refusing new count).Quiet := trivial
    refine ⟨?_, .refused new, ?_, trivial⟩
    · rw [ht, Dialogue.quiet_append, Dialogue.quiet_append]
      exact ⟨⟨quiet_granting, hquiet⟩, quiet_releasing⟩
    · rw [ht, Dialogue.calls_append, Dialogue.calls_append, calls_granting, calls_releasing,
        List.append_assoc]
      rfl

theorem allocateMany_inRounds {x : Except VolumeError (List SectorId)}
    (h : (allocateMany count).Ends t x) : t.InRounds := by
  obtain ⟨-, round, hcalls, -⟩ := allocateMany_ends h
  refine ⟨[round], ?_⟩
  rw [hcalls, List.flatMap_singleton]

theorem allocateMany_undone (h : (allocateMany count).Ends t (.error e)) : t.Undone := by
  obtain ⟨hquiet, round, hcalls, hround⟩ := allocateMany_ends h
  cases round with
  | granted ids => exact hround.elim
  | refused ids =>
    refine ⟨hquiet, ?_⟩
    rw [hcalls]
    exact Round.settles_refused ids

section Faults

variable {δ σ : Type} [BlockDevice δ] [Allocator σ] {a a' : σ} {w w' : World δ} {f : Fault}

/-- Giving back fails with one of the sectors. -/
theorem releaseAll_run_error
    (hrun : ((releaseAll ids).serve a).run w = (.error f, w')) :
    ∃ back id rest a₁ w₁, ids = back ++ id :: rest ∧ (releasing back).Takes a w a₁ w₁ ∧
      (Allocator.release a₁ id).run w₁ = (.error f, w') := by
  induction ids generalizing a w with
  | nil => cases hrun
  | cons id ids ih =>
    rcases run_bind_error hrun with hid | ⟨a₁, w₁, hid, hrest⟩
    · exact ⟨[], id, ids, a, w, rfl, ⟨rfl, rfl⟩, hid⟩
    · obtain ⟨back, id', rest, a₂, w₂, rfl, htakes, hfault⟩ := ih hrest
      exact ⟨id :: back, id', rest, a₂, w₂, rfl, ⟨a₁, w₁, hid, htakes⟩, hfault⟩

/-- What fails in asking for sectors is a call of the allocator. -/
theorem gather_run_error
    (hrun : ((gather wanted obtained left).serve a).run w = (.error f, w')) :
    (∃ new a₁ w₁, new.length < left ∧ (granting new).Takes a w a₁ w₁ ∧
      (Allocator.allocate a₁).run w₁ = (.error f, w')) ∨
    ∃ new back id rest a₁ w₁, new.length < left ∧ obtained.reverse ++ new = back ++ id :: rest ∧
      (granting new ++ refusing (obtained.reverse ++ new) wanted ++
        releasing back).Takes a w a₁ w₁ ∧
      (Allocator.release a₁ id).run w₁ = (.error f, w') := by
  induction left generalizing a w obtained with
  | zero => cases hrun
  | succ left ih =>
    rcases run_bind_error hrun with hask | ⟨⟨answer, a₁⟩, w₁, hask, hrest⟩
    · exact .inl ⟨[], a, w, Nat.zero_lt_succ left, ⟨rfl, rfl⟩, hask⟩
    · cases answer with
      | none =>
        have hnote : (((releaseAll obtained.reverse).bind fun _ => done (.error .noSpace)).serve
            a₁).run ⟨w₁.device, w₁.journal.push (.noted (.outOfSpace obtained.length wanted))⟩ =
              ((.error f : Except Fault (Except VolumeError (List SectorId) × σ)), w') := hrest
        rw [serve_bind] at hnote
        rcases run_bind_error hnote with hreleased | ⟨_, _, _, hdone⟩
        · obtain ⟨back, id, rest, a₂, w₂, hback, htakes, hfault⟩ := releaseAll_run_error hreleased
          refine .inr ⟨[], back, id, rest, a₂, w₂, Nat.zero_lt_succ left, ?_, ?_, hfault⟩
          · rw [List.append_nil, hback]
          · rw [List.append_nil, refusing, List.length_reverse]
            exact ⟨a₁, w₁, hask, _, rfl, htakes⟩
        · cases hdone
      | some id =>
        rcases ih hrest with ⟨new, a₂, w₂, hlength, htakes, hfault⟩ |
          ⟨new, back, id', rest, a₂, w₂, hlength, hback, htakes, hfault⟩
        · exact .inl ⟨id :: new, a₂, w₂, Nat.succ_lt_succ hlength, ⟨a₁, w₁, hask, htakes⟩, hfault⟩
        · rw [reverse_cons_append] at hback htakes
          exact .inr ⟨id :: new, back, id', rest, a₂, w₂, Nat.succ_lt_succ hlength, hback,
            ⟨a₁, w₁, hask, htakes⟩, hfault⟩

end Faults

end Store

end InodeVolume

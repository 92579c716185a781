import InodeVolume.Allocation.FreeMap
import InodeVolume.Proofs.Program.Recording

/-!
What programs give notice of. A free map gives notice of every sector that it hands out or gets
back, and whatever else is done with a disk is discreet about that. So the notices that a run over a
free map gives name the calls that were made to it, each once and in order.
-/
namespace InodeVolume

/-- The call to an allocator that is noted. -/
def Notice.call? : Notice → Option Call
  | allocated answer => some (.allocated answer)
  | released id => some (.released id)
  | _ => none

def Disk.Request.Discreet : Disk.Request → Prop
  | .note m => m.call? = none
  | _ => True

def Store.Request.Discreet : Store.Request → Prop
  | .disk r => r.Discreet
  | _ => True

namespace Dialogue

/-- The calls that notices of the dialogue name. -/
def noted : Dialogue Disk → List Call
  | [] => []
  | ⟨.note m, _⟩ :: t => m.call?.toList ++ noted t
  | _ :: t => noted t

variable {t t' : Dialogue Disk}

@[simp] theorem noted_append : noted (t ++ t') = noted t ++ noted t' := by
  induction t with
  | nil => rfl
  | cons e t ih =>
    obtain ⟨r, x⟩ := e
    cases r with
    | note m => simp only [List.cons_append, noted, ih, List.append_assoc]
    | _ => exact ih

end Dialogue

/-- The calls that have been noted. -/
def World.calls {δ : Type} (w : World δ) : List Call := w.notices.filterMap Notice.call?

namespace Program

section Asks

variable {I : Interface} {α β : Type} {P : I.Request → Prop}

/-- Whatever is replied, only such requests are put as `P` holds of. -/
def Asks (P : I.Request → Prop) : Program I α → Prop
  | done _ => True
  | fault _ => True
  | ask r next => P r ∧ ∀ x, (next x).Asks P

theorem Asks.bind {p : Program I α} {k : α → Program I β} (hp : p.Asks P)
    (hk : ∀ a, (k a).Asks P) : (p >>= k).Asks P := by
  change (p.bind k).Asks P
  induction p with
  | done a => exact hk a
  | fault f => trivial
  | ask r next ih => exact ⟨hp.1, fun x => ih x (hp.2 x)⟩

theorem Asks.ite {c : Prop} [Decidable c] {p q : Program I α} (hp : p.Asks P) (hq : q.Asks P) :
    (if c then p else q).Asks P := by
  split
  · exact hp
  · exact hq

theorem asks_done (a : α) : (done a : Program I α).Asks P := trivial

theorem asks_request {r : I.Request} (hr : P r) : (request r).Asks P := ⟨hr, fun _ => trivial⟩

theorem asks_require (p : Prop) [Decidable p] (b : Breach) :
    (require p b : Program I Unit).Asks P := by
  rw [require]
  split <;> trivial

theorem asks_getOrBreach (o : Option α) (b : Breach) :
    (getOrBreach o b : Program I α).Asks P := by
  cases o <;> trivial

theorem asks_word (n : Nat) : (word n : Program I UInt32).Asks P :=
  (asks_require _ _).bind fun _ => asks_done _

theorem asks_sum (m n : Nat) : (sum m n : Program I Nat).Asks P :=
  (asks_require _ _).bind fun _ => asks_done _

theorem asks_difference (m n : Nat) : (difference m n : Program I Nat).Asks P :=
  (asks_require _ _).bind fun _ => asks_done _

end Asks

variable {α : Type} {t : Dialogue Disk} {x : α}

/-- Gives no notice of a call to an allocator. -/
abbrev Discreet (p : Program Disk α) : Prop := p.Asks Disk.Request.Discreet

/-- Leaves it to the allocator to give notice of a call. -/
abbrev DiscreetOnStore (p : Program Store α) : Prop := p.Asks Store.Request.Discreet

theorem Discreet.onStore {p : Program Disk α} (h : p.Discreet) : p.onStore.DiscreetOnStore := by
  induction p with
  | done a => trivial
  | fault f => trivial
  | ask r next ih => exact ⟨h.1, fun x => ih x (h.2 x)⟩

theorem Discreet.noted_eq {p : Program Disk α} (h : p.Discreet) (hends : p.Ends t x) :
    t.noted = [] := by
  induction hends with
  | done a => rfl
  | ask r y _ ih =>
    cases r with
    | note m =>
      have hm : m.call? = none := h.1
      rw [Dialogue.noted, hm, ih (h.2 y)]
      rfl
    | _ => exact ih (h.2 y)

/-- Behind a run there is a dialogue that notes the same calls. -/
theorem exists_ends_calls {δ : Type} [BlockDevice δ] {p : Program Disk α} {w w' : World δ}
    (h : p.run w = (.ok x, w')) : ∃ t, p.Ends t x ∧ w'.calls = w.calls ++ t.noted := by
  induction p generalizing w with
  | done b =>
    cases h
    exact ⟨[], .done x, (List.append_nil _).symm⟩
  | fault f => cases h
  | ask r next ih =>
    cases r with
    | read n =>
      simp only [run] at h
      split at h
      · rename_i s hs
        obtain ⟨t, ht, hcalls⟩ := ih s h
        exact ⟨_, .ask (I := Disk) (.read n) s ht, hcalls⟩
      · cases h
    | write n s =>
      rcases w with ⟨device, journal⟩
      simp only [run] at h
      split at h
      · obtain ⟨t, ht, hcalls⟩ := ih () h
        refine ⟨_, .ask (I := Disk) (.write n s) () ht, hcalls.trans ?_⟩
        simp [World.calls, World.notices, Dialogue.noted]
      · cases h
    | note m =>
      rcases w with ⟨device, journal⟩
      obtain ⟨t, ht, hcalls⟩ := ih () h
      refine ⟨_, .ask (I := Disk) (.note m) () ht, hcalls.trans ?_⟩
      cases hm : m.call? <;> simp [World.calls, World.notices, Dialogue.noted, hm]

end Program

open Program

namespace Disk

variable {α : Type} [SectorLayout α]

theorem discreet_readSector (n : Nat) : (readSector n).Discreet := asks_request trivial

theorem discreet_writeSector (n : Nat) (s : Sector) : (writeSector n s).Discreet :=
  asks_request trivial

theorem discreet_note {m : Notice} (hm : m.call? = none) : (note m).Discreet := asks_request hm

theorem discreet_load (id : SectorId) : (load id : Program Disk α).Discreet :=
  (discreet_readSector _).bind fun _ => asks_done _

theorem discreet_store (id : SectorId) (a : α) : (store id a).Discreet := discreet_writeSector _ _

theorem discreet_update (id : SectorId) (change : α → α) : (update id change).Discreet :=
  (discreet_load id).bind fun _ => discreet_store id _

end Disk

namespace FreeMap

open Disk

variable {m : FreeMap} {t : Dialogue Disk}

theorem discreet_block (m : FreeMap) (i : Nat) : (m.block i).Discreet := asks_getOrBreach _ _

theorem discreet_claimIn (m : FreeMap) (i : Nat) : (m.claimIn i).Discreet := by
  refine (m.discreet_block i).bind fun place => (discreet_load place).bind fun bits => ?_
  dsimp only
  split
  · split <;> exact (discreet_store place _).bind fun _ => asks_done _
  · exact (discreet_store place _).bind fun _ => asks_done _

theorem discreet_claimFrom (m : FreeMap) (i count : Nat) : (m.claimFrom i count).Discreet := by
  induction count generalizing i with
  | zero => exact asks_done _
  | succ count ih =>
    refine (m.discreet_claimIn i).bind fun found => ?_
    cases found with
    | none => exact ih (i + 1)
    | some n => exact asks_done _

theorem discreet_countUsed (m : FreeMap) (i total count : Nat) :
    (m.countUsed i total count).Discreet := by
  induction count generalizing i total with
  | zero => exact asks_done _
  | succ count ih =>
    exact (m.discreet_block i).bind fun place => (discreet_load place).bind fun _ => ih _ _

theorem discreet_freeCount (m : FreeMap) : m.freeCount.Discreet :=
  (m.discreet_countUsed _ _ _).bind fun _ => asks_difference _ _

/-- What is handed out is noted. -/
theorem noted_allocate {x : Option SectorId} (h : m.allocate.Ends t x) :
    t.noted = [.allocated x] := by
  obtain ⟨t₁, _, found, rfl, hclaim, hnote⟩ := ends_bind.1 h
  obtain ⟨_, _, rfl, hdone⟩ := ends_ask.1 hnote
  obtain ⟨rfl, rfl⟩ := ends_done.1 hdone
  rw [Dialogue.noted_append, (m.discreet_claimFrom 0 m.blocks).noted_eq hclaim]
  rfl

/-- What is given back is noted. -/
theorem noted_release {id : SectorId} {x : Unit} (h : (m.release id).Ends t x) :
    t.noted = [.released id] := by
  obtain ⟨_, t', rfl, hrest⟩ := ends_ask.1 h
  rw [Dialogue.noted, Discreet.noted_eq ?_ hrest]
  · rfl
  · exact (asks_require _ _).bind fun _ => (m.discreet_block _).bind fun place =>
      (discreet_load place).bind fun _ => (asks_require _ _).bind fun _ => discreet_store place _

end FreeMap

/-- Over a free map, the record grows by the calls that are noted. -/
theorem Recorded.calls_noted {α : Type} {p : Program Store α} {x : α} {t : Dialogue Disk}
    {r r' : Recorded FreeMap} (hp : p.DiscreetOnStore) (h : (p.serve r).Ends t (x, r')) :
    r'.calls = r.calls ++ t.noted := by
  induction p generalizing r t with
  | done a =>
    obtain ⟨rfl, hx⟩ := ends_done.1 h
    cases hx
    exact (List.append_nil _).symm
  | fault f => exact absurd h ends_fault
  | ask q next ih =>
    obtain ⟨hq, hnext⟩ := hp
    cases q with
    | disk q =>
      obtain ⟨y, t', rfl, hrest⟩ := ends_ask.1 h
      have hcalls := ih y (hnext y) hrest
      cases q with
      | note m =>
        have hm : m.call? = none := hq
        rwa [Dialogue.noted, hm]
      | _ => exact hcalls
    | allocate =>
      simp only [serve, Allocator.allocate, bind_eq, pure_eq, bind_bind, done_bind] at h
      obtain ⟨t₁, t₂, answer, rfl, hallocate, hrest⟩ := ends_bind.1 h
      rw [ih answer (hnext answer) hrest, Dialogue.noted_append, FreeMap.noted_allocate hallocate]
      exact List.append_assoc _ _ _
    | release id =>
      simp only [serve, Allocator.release, bind_eq, pure_eq, bind_bind, done_bind] at h
      obtain ⟨t₁, t₂, _, rfl, hrelease, hrest⟩ := ends_bind.1 h
      rw [ih () (hnext ()) hrest, Dialogue.noted_append, FreeMap.noted_release hrelease]
      exact List.append_assoc _ _ _

end InodeVolume

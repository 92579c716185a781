import InodeVolume.Allocation.Allocator
import InodeVolume.Device.Basic
import Mathlib.Tactic.Common

/-!
Dialogues: the requests that a program puts, each with the reply that it gets. `p.Ends t a` says
that `p`, answered as in `t`, ends with `a`; it does not ask who answers, so it holds whatever
allocator serves the program and whatever the device holds. `p.Yields R` says that all results of
`p` have the property `R`. `Dialogue.Takes` says what a dialogue does to an allocator and a device.
-/
namespace InodeVolume

abbrev Dialogue (I : Interface) := List (Σ r : I.Request, I.Reply r)

namespace Program

section Ends

variable {I : Interface} {α β : Type} {t : Dialogue I} {a : α}

inductive Ends : Program I α → Dialogue I → α → Prop
  | done (a : α) : Ends (done a) [] a
  | ask (r : I.Request) (x : I.Reply r) {next : I.Reply r → Program I α} {t : Dialogue I} {a : α} :
    Ends (next x) t a → Ends (ask r next) (⟨r, x⟩ :: t) a

@[simp] theorem ends_done {b : α} : (done b : Program I α).Ends t a ↔ t = [] ∧ a = b := by
  constructor
  · intro h
    cases h
    exact ⟨rfl, rfl⟩
  · intro h
    obtain ⟨rfl, rfl⟩ := h
    exact .done a

@[simp] theorem ends_fault {f : Fault} : ¬ (fault f : Program I α).Ends t a := by
  intro h
  cases h

@[simp] theorem ends_ask {r : I.Request} {next : I.Reply r → Program I α} :
    (ask r next).Ends t a ↔ ∃ x t', t = ⟨r, x⟩ :: t' ∧ (next x).Ends t' a := by
  constructor
  · intro h
    cases h with
    | ask _ x h => exact ⟨x, _, rfl, h⟩
  · intro h
    obtain ⟨x, t', rfl, h⟩ := h
    exact .ask r x h

/-- A dialogue of two programs in a row is cut where the second one begins. -/
@[simp] theorem ends_bind {p : Program I α} {k : α → Program I β} {b : β} :
    (p.bind k).Ends t b ↔ ∃ t₁ t₂ a, t = t₁ ++ t₂ ∧ p.Ends t₁ a ∧ (k a).Ends t₂ b := by
  induction p generalizing t with
  | done a => simp
  | fault f => simp
  | ask r next ih =>
    simp only [ask_bind, ends_ask, ih]
    constructor
    · intro h
      obtain ⟨x, _, rfl, t₁, t₂, a, rfl, h₁, h₂⟩ := h
      exact ⟨⟨r, x⟩ :: t₁, t₂, a, rfl, ⟨x, t₁, rfl, h₁⟩, h₂⟩
    · intro h
      obtain ⟨_, t₂, a, rfl, ⟨x, t₁, rfl, h₁⟩, h₂⟩ := h
      exact ⟨x, t₁ ++ t₂, rfl, t₁, t₂, a, rfl, h₁, h₂⟩

theorem ends_request {r : I.Request} {x : I.Reply r} : (request r).Ends t x ↔ t = [⟨r, x⟩] := by
  simp only [request, ends_ask, ends_done]
  constructor
  · intro h
    obtain ⟨_, _, rfl, rfl, rfl⟩ := h
    rfl
  · intro h
    exact ⟨x, [], h, rfl, rfl⟩

@[simp] theorem ends_require {P : Prop} [Decidable P] {b : Breach} {x : Unit} :
    (require P b : Program I Unit).Ends t x ↔ P ∧ t = [] := by
  by_cases h : P <;> simp [require, breach, h]

@[simp] theorem ends_getOrBreach {o : Option α} {b : Breach} :
    (getOrBreach o b : Program I α).Ends t a ↔ o = some a ∧ t = [] := by
  cases o <;> simp [getOrBreach, breach, and_comm, eq_comm]

@[simp] theorem ends_word {n : Nat} {x : UInt32} : (word n : Program I UInt32).Ends t x ↔
    n < 0x100000000 ∧ t = [] ∧ x = UInt32.ofNat n := by
  simp only [word, bind_eq, pure_eq, ends_bind, ends_require, ends_done]
  constructor
  · intro h
    obtain ⟨_, _, _, rfl, ⟨hn, rfl⟩, rfl, hx⟩ := h
    exact ⟨hn, rfl, hx⟩
  · intro h
    obtain ⟨hn, rfl, hx⟩ := h
    exact ⟨[], [], (), rfl, ⟨hn, rfl⟩, rfl, hx⟩

end Ends

/-- Whatever is replied, a result has the property. -/
def Yields (R : α → Prop) : Program I α → Prop
  | done a => R a
  | fault _ => True
  | ask _ next => ∀ x, (next x).Yields R

section Yields

variable {I : Interface} {α β : Type} {R S : α → Prop}

@[simp] theorem yields_done {a : α} : (done a : Program I α).Yields R ↔ R a := Iff.rfl

@[simp] theorem yields_fault {f : Fault} : (fault f : Program I α).Yields R := trivial

@[simp] theorem yields_breach {b : Breach} : (breach b : Program I α).Yields R := trivial

@[simp] theorem yields_bind {p : Program I α} {k : α → Program I β} {R : β → Prop} :
    (p.bind k).Yields R ↔ p.Yields fun a => (k a).Yields R := by
  induction p with
  | done a => rfl
  | fault f => exact Iff.rfl
  | ask r next ih => exact forall_congr' ih

theorem Yields.imp {p : Program I α} (h : p.Yields R) (hRS : ∀ a, R a → S a) : p.Yields S := by
  induction p with
  | done a => exact hRS a h
  | fault f => trivial
  | ask r next ih => exact fun x => ih x (h x)

theorem yields_of_forall {p : Program I α} (h : ∀ a, R a) : p.Yields R := by
  induction p with
  | done a => exact h a
  | fault f => trivial
  | ask r next ih => exact ih

@[simp] theorem yields_require {P : Prop} [Decidable P] {b : Breach} {R : Unit → Prop} :
    (require P b : Program I Unit).Yields R ↔ (P → R ()) := by
  by_cases h : P <;> simp [require, h]

@[simp] theorem yields_getOrBreach {o : Option α} {b : Breach} :
    (getOrBreach o b : Program I α).Yields R ↔ ∀ a, o = some a → R a := by
  cases o <;> simp [getOrBreach]

theorem Yields.of_ends {p : Program I α} {t : Dialogue I} {a : α} (h : p.Yields R)
    (hends : p.Ends t a) : R a := by
  induction hends with
  | done a => exact h
  | ask r x _ ih => exact ih (h x)

@[simp] theorem yields_onStore {p : Program Disk α} : p.onStore.Yields R ↔ p.Yields R := by
  induction p with
  | done a => rfl
  | fault f => exact Iff.rfl
  | ask r next ih => exact forall_congr' ih

end Yields

end Program

/-- What is asked of an allocator, with its answer. -/
inductive Call where
  | allocated (answer : Option SectorId)
  | released (id : SectorId)
  deriving DecidableEq

namespace Call

/-- The sectors that an allocator handed out. -/
def handedOut : List Call → List SectorId :=
  List.filterMap fun
    | allocated answer => answer
    | released _ => none

/-- The sectors that it got back. -/
def givenBack : List Call → List SectorId :=
  List.filterMap fun
    | allocated _ => none
    | released id => some id

end Call

namespace Dialogue

def calls : Dialogue Store → List Call
  | [] => []
  | ⟨.disk _, _⟩ :: t => calls t
  | ⟨.allocate, answer⟩ :: t => .allocated answer :: calls t
  | ⟨.release id, _⟩ :: t => .released id :: calls t

/-- No sector is read and none is written; notices may be given. -/
def Quiet : Dialogue Store → Prop
  | [] => True
  | ⟨.disk (.read _), _⟩ :: _ => False
  | ⟨.disk (.write _ _), _⟩ :: _ => False
  | _ :: t => Quiet t

variable {t t₁ t₂ : Dialogue Store}

@[simp] theorem calls_nil : calls [] = [] := rfl

@[simp] theorem quiet_nil : Quiet [] := trivial

@[simp] theorem calls_append : calls (t₁ ++ t₂) = calls t₁ ++ calls t₂ := by
  induction t₁ with
  | nil => rfl
  | cons e t₁ ih =>
    obtain ⟨r, x⟩ := e
    cases r with
    | disk r => exact ih
    | allocate => exact congrArg (_ :: ·) ih
    | release id => exact congrArg (_ :: ·) ih

@[simp] theorem quiet_append : Quiet (t₁ ++ t₂) ↔ Quiet t₁ ∧ Quiet t₂ := by
  induction t₁ with
  | nil => simp [Quiet]
  | cons e t₁ ih =>
    obtain ⟨r, x⟩ := e
    cases r with
    | disk r =>
      cases r with
      | read n => simp [Quiet]
      | write n s => simp [Quiet]
      | note m => exact ih
    | allocate => exact ih
    | release id => exact ih

end Dialogue

theorem World.mem_notices_push {δ : Type} {w : World δ} {n : Notice} (hn : n ∈ w.notices) (d : δ)
    (e : Event) : n ∈ (World.mk d (w.journal.push e)).notices := by
  rw [notices, Array.toList_push, List.filterMap_append]
  exact List.mem_append_left _ hn

namespace Program

variable {α : Type} {t : Dialogue Store}

theorem ends_allocate {x : Option SectorId} :
    Store.allocate.Ends t x ↔ t = [⟨.allocate, x⟩] := ends_request (I := Store)

theorem ends_release {id : SectorId} {x : Unit} :
    (Store.release id).Ends t x ↔ t = [⟨.release id, ()⟩] := ends_request (I := Store)

/-- A program that uses the disk alone calls no allocator. -/
theorem calls_eq_nil_of_onStore {p : Program Disk α} {a : α} (h : p.onStore.Ends t a) :
    t.calls = [] := by
  induction p generalizing t with
  | done b =>
    rw [(ends_done.1 h).1]
    rfl
  | fault f => exact absurd h ends_fault
  | ask r next ih =>
    cases h with
    | ask _ x h =>
      have hcalls := ih x h
      exact hcalls

theorem ends_note {m : Notice} {x : Unit} :
    (Disk.note m).onStore.Ends t x ↔ t = [⟨.disk (.note m), ()⟩] := ends_request (I := Store)

/-- An allocator has no say in what a result is like. -/
theorem Yields.serve {σ : Type} [Allocator σ] {p : Program Store α} {R : α → Prop} (h : p.Yields R)
    (s : σ) : (p.serve s).Yields fun x => R x.1 := by
  induction p generalizing s with
  | done a => exact h
  | fault f => trivial
  | ask r next ih =>
    cases r with
    | disk r => exact fun x => ih x (h x) s
    | allocate =>
      rw [Program.serve, yields_bind]
      exact yields_of_forall fun x => ih x.1 (h x.1) x.2
    | release id =>
      rw [Program.serve, yields_bind]
      exact yields_of_forall fun s => ih () (h ()) s

/-- Behind a run on a device there is a dialogue. -/
theorem exists_ends {δ : Type} [BlockDevice δ] {p : Program Disk α} {a : α} {w w' : World δ}
    (h : p.run w = (.ok a, w')) : ∃ t, p.Ends t a := by
  induction p generalizing w with
  | done b =>
    cases h
    exact ⟨[], .done a⟩
  | fault f => cases h
  | ask r next ih =>
    cases r with
    | read n =>
      simp only [run] at h
      split at h
      · rename_i s hs
        obtain ⟨t, ht⟩ := ih s h
        exact ⟨_, .ask (I := Disk) (.read n) s ht⟩
      · cases h
    | write n s =>
      simp only [run] at h
      split at h
      · obtain ⟨t, ht⟩ := ih () h
        exact ⟨_, .ask (I := Disk) (.write n s) () ht⟩
      · cases h
    | note m =>
      obtain ⟨t, ht⟩ := ih () h
      exact ⟨_, .ask (I := Disk) (.note m) () ht⟩

/-- A run that ends with a result is a run of one program after the other. -/
theorem run_bind_ok {δ β : Type} [BlockDevice δ] {p : Program Disk α} {k : α → Program Disk β}
    {b : β} {w w' : World δ} (h : (p.bind k).run w = (.ok b, w')) :
    ∃ x w₁, p.run w = (.ok x, w₁) ∧ (k x).run w₁ = (.ok b, w') := by
  rw [run_bind] at h
  split at h
  · rename_i x w₁ hp
    exact ⟨x, w₁, hp, h⟩
  · cases h

/-- Notices that have been given stay. -/
theorem mem_notices_of_run {δ : Type} [BlockDevice δ] {n : Notice} {p : Program Disk α}
    {r : Except Fault α} {w w' : World δ} (h : p.run w = (r, w')) (hn : n ∈ w.notices) :
    n ∈ w'.notices := by
  induction p generalizing w with
  | done a =>
    cases h
    exact hn
  | fault f =>
    cases h
    exact hn
  | ask q next ih =>
    cases q with
    | read i =>
      simp only [run] at h
      split at h
      · exact ih _ h hn
      · cases h
        exact hn
    | write i s =>
      simp only [run] at h
      split at h
      · exact ih _ h (World.mem_notices_push hn _ _)
      · cases h
        exact hn
    | note m => exact ih _ h (World.mem_notices_push hn _ _)

/-- A run that fails does so in one of the two programs. -/
theorem run_bind_error {δ β : Type} [BlockDevice δ] {p : Program Disk α} {k : α → Program Disk β}
    {f : Fault} {w w' : World δ} (h : (p.bind k).run w = (.error f, w')) :
    p.run w = (.error f, w') ∨
      ∃ x w₁, p.run w = (.ok x, w₁) ∧ (k x).run w₁ = (.error f, w') := by
  rw [run_bind] at h
  split at h
  · rename_i x w₁ hp
    exact .inr ⟨x, w₁, hp, h⟩
  · rename_i hp
    cases h
    exact .inl hp

end Program

namespace Dialogue

open Program

variable {δ σ α : Type} [BlockDevice δ] [Allocator σ] {t : Dialogue Store} {a a' : σ}
  {w w' : World δ}

/-- An allocator and a world become others when each request is answered as in the dialogue. -/
def Takes : Dialogue Store → σ → World δ → σ → World δ → Prop
  | [], a, w, a', w' => a' = a ∧ w' = w
  | ⟨.disk r, x⟩ :: t, a, w, a', w' =>
    ∃ w₁, (request (I := Disk) r).run w = (.ok x, w₁) ∧ Takes t a w₁ a' w'
  | ⟨.allocate, answer⟩ :: t, a, w, a', w' =>
    ∃ a₁ w₁, (Allocator.allocate a).run w = (.ok (answer, a₁), w₁) ∧ Takes t a₁ w₁ a' w'
  | ⟨.release id, _⟩ :: t, a, w, a', w' =>
    ∃ a₁ w₁, (Allocator.release a id).run w = (.ok a₁, w₁) ∧ Takes t a₁ w₁ a' w'

theorem takes_append {t' : Dialogue Store} : (t ++ t').Takes a w a' w' ↔
    ∃ a₁ w₁, t.Takes a w a₁ w₁ ∧ t'.Takes a₁ w₁ a' w' := by
  induction t generalizing a w with
  | nil =>
    constructor
    · exact fun h => ⟨a, w, ⟨rfl, rfl⟩, h⟩
    · rintro ⟨_, _, ⟨rfl, rfl⟩, h⟩
      exact h
  | cons x t ih =>
    obtain ⟨r, x⟩ := x
    cases r with
    | disk r =>
      simp only [List.cons_append, Takes, ih]
      exact ⟨fun ⟨w₁, hr, a₂, w₂, h, h'⟩ => ⟨a₂, w₂, ⟨w₁, hr, h⟩, h'⟩,
        fun ⟨a₂, w₂, ⟨w₁, hr, h⟩, h'⟩ => ⟨w₁, hr, a₂, w₂, h, h'⟩⟩
    | allocate =>
      simp only [List.cons_append, Takes, ih]
      exact ⟨fun ⟨a₁, w₁, hr, a₂, w₂, h, h'⟩ => ⟨a₂, w₂, ⟨a₁, w₁, hr, h⟩, h'⟩,
        fun ⟨a₂, w₂, ⟨a₁, w₁, hr, h⟩, h'⟩ => ⟨a₁, w₁, hr, a₂, w₂, h, h'⟩⟩
    | release id =>
      simp only [List.cons_append, Takes, ih]
      exact ⟨fun ⟨a₁, w₁, hr, a₂, w₂, h, h'⟩ => ⟨a₂, w₂, ⟨a₁, w₁, hr, h⟩, h'⟩,
        fun ⟨a₂, w₂, ⟨a₁, w₁, hr, h⟩, h'⟩ => ⟨a₁, w₁, hr, a₂, w₂, h, h'⟩⟩

theorem Takes.mem_notices {n : Notice} (h : t.Takes a w a' w') (hn : n ∈ w.notices) :
    n ∈ w'.notices := by
  induction t generalizing a w with
  | nil =>
    obtain ⟨-, rfl⟩ := h
    exact hn
  | cons x t ih =>
    obtain ⟨r, x⟩ := x
    cases r with
    | disk r =>
      obtain ⟨w₁, hr, h⟩ := h
      exact ih h (mem_notices_of_run hr hn)
    | allocate =>
      obtain ⟨a₁, w₁, hr, h⟩ := h
      exact ih h (mem_notices_of_run hr hn)
    | release id =>
      obtain ⟨a₁, w₁, hr, h⟩ := h
      exact ih h (mem_notices_of_run hr hn)

/-- A notice of the dialogue is given. -/
theorem Takes.noted {n : Notice} (h : t.Takes a w a' w') (hn : ⟨.disk (.note n), ()⟩ ∈ t) :
    n ∈ w'.notices := by
  obtain ⟨t₁, t₂, rfl⟩ := List.append_of_mem hn
  obtain ⟨a₁, w₁, -, w₂, hnote, h⟩ := takes_append.1 h
  cases hnote
  refine h.mem_notices ?_
  simp [World.notices]

/-- A program whose requests are answered as in a dialogue ends as the dialogue says. -/
theorem Takes.run {p : Program Store α} {x : α} (h : t.Takes a w a' w') (hends : p.Ends t x) :
    (p.serve a).run w = (.ok (x, a'), w') := by
  induction hends generalizing a w with
  | done x =>
    obtain ⟨rfl, rfl⟩ := h
    rfl
  | @ask r y next t x _ ih =>
    cases r with
    | disk r =>
      obtain ⟨w₁, hr, h⟩ := h
      have hserve : (ask (I := Store) (.disk r) next).serve a =
          (request (I := Disk) r).bind fun y => (next y).serve a := rfl
      rw [hserve, run_bind, hr]
      exact ih h
    | allocate =>
      obtain ⟨a₁, w₁, hr, h⟩ := h
      rw [serve, run_bind, hr]
      exact ih h
    | release id =>
      obtain ⟨a₁, w₁, hr, h⟩ := h
      rw [serve, run_bind, hr]
      exact ih h

/-- Behind a run that an allocator serves there is a dialogue of the program. -/
theorem exists_takes {p : Program Store α} {x : α}
    (h : (p.serve a).run w = (.ok (x, a'), w')) :
    ∃ t : Dialogue Store, p.Ends t x ∧ t.Takes a w a' w' := by
  induction p generalizing a w with
  | done y =>
    cases h
    exact ⟨[], .done x, rfl, rfl⟩
  | fault f => cases h
  | ask r next ih =>
    cases r with
    | disk r =>
      obtain ⟨y, w₁, hr, hnext⟩ := run_bind_ok (p := request (I := Disk) r)
        (k := fun y => (next y).serve a) h
      obtain ⟨t, ht, htakes⟩ := ih y hnext
      exact ⟨⟨.disk r, y⟩ :: t, .ask (I := Store) (.disk r) y ht, w₁, hr, htakes⟩
    | allocate =>
      obtain ⟨⟨answer, a₁⟩, w₁, hr, hnext⟩ := run_bind_ok h
      obtain ⟨t, ht, htakes⟩ := ih answer hnext
      exact ⟨⟨.allocate, answer⟩ :: t, .ask (I := Store) .allocate answer ht, a₁, w₁, hr, htakes⟩
    | release id =>
      obtain ⟨a₁, w₁, hr, hnext⟩ := run_bind_ok h
      obtain ⟨t, ht, htakes⟩ := ih () hnext
      exact ⟨⟨.release id, ()⟩ :: t, .ask (I := Store) (.release id) () ht, a₁, w₁, hr, htakes⟩

end Dialogue

end InodeVolume

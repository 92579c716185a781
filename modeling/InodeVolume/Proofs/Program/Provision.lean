import InodeVolume.Proofs.Program.Informed
import InodeVolume.Proofs.Program.Allocation
import Mathlib.Data.Finset.Card

/-!
Programs over an allocator that has a known number of sectors for them. `p.Provided room Q d F K`
says that `p`, begun on the image `d` while it owns `F` and the content of the sectors of `K` is
known, reads only sectors that are known, and that `Q` holds in the end. It gets a sector exactly
if it owns fewer than `room`. What else it owns and touches is a matter of `Secures`, and a fault
ends it in any case.
-/
namespace InodeVolume

/-- The content of the sectors of `F` is known. -/
def Known (K : Set Nat) (F : Finset SectorId) : Prop := ∀ x ∈ F, x.index ∈ K

section Known

variable {K K' : Set Nat} {F F' : Finset SectorId}

theorem Known.mono (h : Known K F) (hK : K ⊆ K') : Known K' F := fun x hx => hK (h x hx)

theorem Known.of_owned (h : Known K F) {n : Nat} (hn : Owned F n) : n ∈ K := by
  obtain ⟨x, hx, rfl⟩ := hn
  exact h x hx

theorem known_union : Known K (F ∪ F') ↔ Known K F ∧ Known K F' := by
  simp only [Known, Finset.mem_union, or_imp, forall_and]

theorem known_insert {s : SectorId} : Known K (insert s F) ↔ s.index ∈ K ∧ Known K F := by
  simp only [Known, Finset.mem_insert, or_imp, forall_and, forall_eq]

end Known

namespace Program

variable {α β : Type} {room : Nat} {Q R : α → Image → Finset SectorId → Set Nat → Prop}
  {G : Finset SectorId → Image → Image → Prop} {S : α → Image → Finset SectorId → Prop}
  {d : Image} {F : Finset SectorId} {K : Set Nat}

def Provided (room : Nat) : Program Store α →
    (α → Image → Finset SectorId → Set Nat → Prop) → Image → Finset SectorId → Set Nat → Prop
  | done a, Q, d, F, K => Q a d F K
  | fault _, _, _, _, _ => True
  | ask (.disk (.read n)) next, Q, d, F, K => n ∈ K ∧ Provided room (next (d n)) Q d F K
  | ask (.disk (.write n s)) next, Q, d, F, K =>
    Provided room (next ()) Q (Function.update d n s) F (insert n K)
  | ask (.disk (.note _)) next, Q, d, F, K => Provided room (next ()) Q d F K
  | ask .allocate next, Q, d, F, K => ∀ d', Agree F d d' →
    (room ≤ F.card → Provided room (next none) Q d' F K) ∧
      ∀ id, id ∉ F → F.card < room → Provided room (next (some id)) Q d' (insert id F) K
  | ask (.release id) next, Q, d, F, K => ∀ d', Agree (F.erase id) d d' →
    Provided room (next ()) Q d' (F.erase id) K

@[simp] theorem provided_done {a : α} : (done a).Provided room Q d F K ↔ Q a d F K := Iff.rfl

@[simp] theorem provided_fault {f : Fault} :
    (fault f : Program Store α).Provided room Q d F K := trivial

@[simp] theorem provided_breach {b : Breach} :
    (breach b : Program Store α).Provided room Q d F K := trivial

@[simp] theorem provided_bind {p : Program Store α} {k : α → Program Store β}
    {Q : β → Image → Finset SectorId → Set Nat → Prop} : (p.bind k).Provided room Q d F K ↔
      p.Provided room (fun a d' F' K' => (k a).Provided room Q d' F' K') d F K := by
  induction p generalizing d F K with
  | done a => rfl
  | fault f => exact Iff.rfl
  | ask r next ih =>
    cases r with
    | disk r =>
      cases r with
      | read n => simp only [ask_bind, Provided, ih]
      | write n s => simp only [ask_bind, Provided, ih]
      | note m => exact ih ()
    | allocate => simp only [ask_bind, Provided, ih]
    | release id => simp only [ask_bind, Provided, ih]

theorem Provided.imp {p : Program Store α} (h : p.Provided room Q d F K)
    (hQ : ∀ a d' F' K', Q a d' F' K' → R a d' F' K') : p.Provided room R d F K := by
  induction p generalizing d F K with
  | done a => exact hQ a d F K h
  | fault f => trivial
  | ask r next ih =>
    cases r with
    | disk r =>
      cases r with
      | read n => exact ⟨h.1, ih (d n) h.2⟩
      | write n s => exact ih () h
      | note m => exact ih () h
    | allocate => exact fun d' hd =>
        ⟨fun hroom => ih none ((h d' hd).1 hroom),
          fun id hid hlt => ih (some id) ((h d' hd).2 id hid hlt)⟩
    | release id => exact fun d' hd => ih () (h d' hd)

/-- What is secured of the end of a program besides. -/
theorem Provided.and {p : Program Store α} (h : p.Provided room Q d F K)
    (hp : p.Secures G S d F) :
    p.Provided room (fun a d' F' K' => Q a d' F' K' ∧ S a d' F') d F K := by
  induction p generalizing d F K with
  | done a => exact ⟨h, hp⟩
  | fault f => trivial
  | ask r next ih =>
    cases r with
    | disk r =>
      cases r with
      | read n => exact ⟨h.1, ih (d n) h.2 hp.2⟩
      | write n s => exact ih () h hp.2.2
      | note m => exact ih () h hp
    | allocate =>
      intro d' hd
      obtain ⟨-, hnone, hsome⟩ := hp d' hd
      exact ⟨fun hroom => ih none ((h d' hd).1 hroom) hnone,
        fun id hid hlt => ih (some id) ((h d' hd).2 id hid hlt) (hsome id hid)⟩
    | release id => exact fun d' hd => ih () (h d' hd) (hp.2 d' hd).2

@[simp] theorem provided_onStore {p : Program Disk α} : p.onStore.Provided room Q d F K ↔
    p.Informed (fun a d' K' => Q a d' F K') d K := by
  induction p generalizing d K with
  | done a => rfl
  | fault f => exact Iff.rfl
  | ask r next ih =>
    cases r with
    | read n => simp only [onStore, Provided, Informed, ih]
    | write n s => simp only [onStore, Provided, Informed, ih]
    | note m => exact ih ()

@[simp] theorem provided_require {P : Prop} [Decidable P] {b : Breach}
    {Q : Unit → Image → Finset SectorId → Set Nat → Prop} :
    (require P b : Program Store Unit).Provided room Q d F K ↔ (P → Q () d F K) := by
  by_cases h : P <;> simp [require, h]

@[simp] theorem provided_difference {m n : Nat}
    {Q : Nat → Image → Finset SectorId → Set Nat → Prop} :
    (difference m n : Program Store Nat).Provided room Q d F K ↔ (n ≤ m → Q (m - n) d F K) := by
  simp [difference]

@[simp] theorem provided_sum {m n : Nat} {Q : Nat → Image → Finset SectorId → Set Nat → Prop} :
    (sum m n : Program Store Nat).Provided room Q d F K ↔
      (m + n < 0x10000000000000000 → Q (m + n) d F K) := by
  simp [sum]

@[simp] theorem provided_word {n : Nat} {Q : UInt32 → Image → Finset SectorId → Set Nat → Prop} :
    (word n : Program Store UInt32).Provided room Q d F K ↔
      (n < 0x100000000 → Q (UInt32.ofNat n) d F K) := by
  simp [word]

@[simp] theorem provided_getOrBreach {o : Option α} {b : Breach} :
    (getOrBreach o b : Program Store α).Provided room Q d F K ↔
      ∀ a, o = some a → Q a d F K := by
  cases o <;> simp [getOrBreach]

theorem provided_allocate {Q : Option SectorId → Image → Finset SectorId → Set Nat → Prop} :
    Store.allocate.Provided room Q d F K ↔ ∀ d', Agree F d d' →
      (room ≤ F.card → Q none d' F K) ∧
        ∀ id, id ∉ F → F.card < room → Q (some id) d' (insert id F) K := Iff.rfl

theorem provided_release {id : SectorId} {Q : Unit → Image → Finset SectorId → Set Nat → Prop} :
    (Store.release id).Provided room Q d F K ↔ ∀ d', Agree (F.erase id) d d' →
      Q () d' (F.erase id) K := Iff.rfl

end Program

namespace Store

open Program

variable {room : Nat} {d : Image} {F : Finset SectorId} {K : Set Nat}

/-- Giving back reads nothing. -/
theorem releaseAll_provided {ids : List SectorId} :
    (releaseAll ids).Provided room (fun _ _ _ K' => K' = K) d F K := by
  induction ids generalizing d F with
  | nil => rfl
  | cons x rest ih =>
    rw [releaseAll, bind_eq, provided_bind, provided_release]
    exact fun d' _ => ih

/-- Sectors are refused only if there is no room for all of them. -/
theorem gather_provided (wanted left : Nat) {obtained : List SectorId} :
    (gather wanted obtained left).Provided room
      (fun x _ _ K' => K' = K ∧ ∀ e, x = .error e → room < F.card + left) d F K := by
  induction left generalizing d F obtained with
  | zero => exact ⟨rfl, fun e he => by cases he⟩
  | succ left ih =>
    rw [gather, bind_eq, provided_bind, provided_allocate]
    refine fun d' _ => ⟨fun hroom => ?_, fun id hid _ => ?_⟩
    · simp only [liftM_eq, bind_eq, pure_eq, provided_bind, provided_onStore, informed_note,
        provided_done]
      refine releaseAll_provided.imp fun _ _ _ K' hK' => ⟨hK', fun _ _ => by omega⟩
    · refine ih.imp fun x _ _ K' hx => ⟨hx.1, fun e he => ?_⟩
      have hlt := hx.2 e he
      rw [Finset.card_insert_of_notMem hid] at hlt
      omega

theorem allocateMany_provided (count : Nat) : (allocateMany count).Provided room
    (fun x _ _ K' => K' = K ∧ ∀ e, x = .error e → room < F.card + count) d F K := by
  simp only [allocateMany, bind_eq, provided_bind, provided_require]
  exact fun _ => gather_provided count count

end Store

end InodeVolume

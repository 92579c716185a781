import InodeVolume.Allocation.Allocator
import InodeVolume.Proofs.Program.Ensures
import Mathlib.Data.Finset.Basic
import Mathlib.Data.Finset.Lattice.Lemmas

/-!
What a program does that obtains sectors from an allocator and gives them back. The program owns a
set of sectors: it touches no other, an allocated sector is a new one, and only an owned sector is
given back. Nothing is known of the allocator but that it leaves owned sectors alone, so it may
change all others at each call and may refuse at any call. `Lender` says what an allocator has to
keep for that to hold, and `Secures.serve` carries the result over to a run that it serves.
-/
namespace InodeVolume

/-- The number of a sector of `F`. -/
def Owned (F : Finset SectorId) (n : Nat) : Prop := ∃ id ∈ F, id.index = n

/-- Two images that hold the same on the sectors of `F`. -/
def Agree (F : Finset SectorId) (d d' : Image) : Prop := ∀ id ∈ F, d' id.index = d id.index

/-- Who gives back an own sector takes nothing from the others. -/
theorem erase_union_of_disjoint {F R : Finset SectorId} {id : SectorId} (h : Disjoint F R)
    (hid : id ∈ F) : (F ∪ R).erase id = F.erase id ∪ R := by
  have hR : id ∉ R := Finset.disjoint_left.1 h hid
  rw [Finset.erase_union_distrib, Finset.erase_eq_of_notMem hR]

section Agree

variable {F F' : Finset SectorId} {d d' d'' : Image}

theorem owned_of_mem {id : SectorId} (h : id ∈ F) : Owned F id.index := ⟨id, h, rfl⟩

theorem Owned.mono {n : Nat} (h : Owned F n) (hF : F ⊆ F') : Owned F' n := by
  obtain ⟨id, hid, rfl⟩ := h
  exact ⟨id, hF hid, rfl⟩

theorem not_owned_of_not_mem {id : SectorId} (h : id ∉ F) : ¬ Owned F id.index := by
  rintro ⟨other, ho, he⟩
  exact h (SectorId.index_injective he ▸ ho)

@[simp] theorem agree_refl (F : Finset SectorId) (d : Image) : Agree F d d := fun _ _ => rfl

theorem Agree.trans (h : Agree F d d') (h' : Agree F d' d'') : Agree F d d'' := fun id hid =>
  (h' id hid).trans (h id hid)

theorem Agree.mono (h : Agree F d d') (hF : F' ⊆ F) : Agree F' d d' := fun id hid => h id (hF hid)

theorem agree_update {n : Nat} {s : Sector} (h : ¬ Owned F n) :
    Agree F d (Function.update d n s) := by
  intro id hid
  have hne : id.index ≠ n := fun he => h ⟨id, hid, he⟩
  exact Function.update_of_ne hne _ _

end Agree

namespace Program

variable {α β : Type} {G : Finset SectorId → Image → Image → Prop}
  {Q : α → Image → Finset SectorId → Prop} {d : Image} {F : Finset SectorId}

/-- `p`, begun on `d` while it owns `F`, ends without a fault in a result, an image and a set of
owned sectors of which `Q` holds. `G` grants each change of the image, also those that the
allocator makes meanwhile. -/
def Secures (G : Finset SectorId → Image → Image → Prop) :
    Program Store α → (α → Image → Finset SectorId → Prop) → Image → Finset SectorId → Prop
  | done a, Q, d, F => Q a d F
  | fault _, _, _, _ => False
  | ask (.disk (.read n)) next, Q, d, F => Owned F n ∧ Secures G (next (d n)) Q d F
  | ask (.disk (.write n s)) next, Q, d, F =>
    Owned F n ∧ G F d (Function.update d n s) ∧ Secures G (next ()) Q (Function.update d n s) F
  | ask (.disk (.note _)) next, Q, d, F => Secures G (next ()) Q d F
  | ask .allocate next, Q, d, F =>
    ∀ d', Agree F d d' → (∀ d'', Agree F d d'' → G F d' d'') ∧
      Secures G (next none) Q d' F ∧ ∀ id, id ∉ F → Secures G (next (some id)) Q d' (insert id F)
  | ask (.release id) next, Q, d, F =>
    id ∈ F ∧ ∀ d', Agree (F.erase id) d d' →
      (∀ d'', Agree (F.erase id) d d'' → G (F.erase id) d' d'') ∧
      Secures G (next ()) Q d' (F.erase id)

@[simp] theorem secures_done {a : α} : (done a).Secures G Q d F ↔ Q a d F := Iff.rfl

@[simp] theorem secures_fault {f : Fault} : ¬ (fault f : Program Store α).Secures G Q d F := id

@[simp] theorem secures_bind {p : Program Store α} {k : α → Program Store β}
    {Q : β → Image → Finset SectorId → Prop} : (p.bind k).Secures G Q d F ↔
      p.Secures G (fun a d' F' => (k a).Secures G Q d' F') d F := by
  induction p generalizing d F with
  | done a => rfl
  | fault f => rfl
  | ask r next ih =>
    cases r with
    | disk r =>
      cases r with
      | read n => simp only [ask_bind, Secures, ih]
      | write n s => simp only [ask_bind, Secures, ih]
      | note m => exact ih () (d := d) (F := F)
    | allocate => simp only [ask_bind, Secures, ih]
    | release id => simp only [ask_bind, Secures, ih]

theorem Secures.mono {G' : Finset SectorId → Image → Image → Prop}
    {Q' : α → Image → Finset SectorId → Prop} {p : Program Store α} (h : p.Secures G Q d F)
    (hG : ∀ F' d₁ d₂, G F' d₁ d₂ → G' F' d₁ d₂) (hQ : ∀ a d' F', Q a d' F' → Q' a d' F') :
    p.Secures G' Q' d F := by
  induction p generalizing d F with
  | done a => exact hQ a d F h
  | fault f => exact h
  | ask r next ih =>
    cases r with
    | disk r =>
      cases r with
      | read n => exact ⟨h.1, ih (d n) h.2⟩
      | write n s => exact ⟨h.1, hG _ _ _ h.2.1, ih () h.2.2⟩
      | note m => exact ih () h
    | allocate =>
      intro d' hd
      obtain ⟨hg, hnone, hsome⟩ := h d' hd
      exact ⟨fun d'' hd'' => hG _ _ _ (hg d'' hd''), ih none hnone,
        fun id hid => ih (some id) (hsome id hid)⟩
    | release id =>
      refine ⟨h.1, fun d' hd => ?_⟩
      obtain ⟨hg, hnext⟩ := h.2 d' hd
      exact ⟨fun d'' hd'' => hG _ _ _ (hg d'' hd''), ih () hnext⟩

theorem Secures.imp {Q' : α → Image → Finset SectorId → Prop} {p : Program Store α}
    (h : p.Secures G Q d F) (hQ : ∀ a d' F', Q a d' F' → Q' a d' F') : p.Secures G Q' d F :=
  h.mono (fun _ _ _ => id) hQ

@[simp] theorem liftM_eq (p : Program Disk α) : (liftM p : Program Store α) = p.onStore := rfl

@[simp] theorem secures_onStore {p : Program Disk α} : p.onStore.Secures G Q d F ↔
    p.Ensures (Owned F) (G F) (fun a d' => Q a d' F) d := by
  induction p generalizing d with
  | done a => rfl
  | fault f => rfl
  | ask r next ih =>
    cases r with
    | read n => simp only [onStore, Secures, Ensures, ih]
    | write n s => simp only [onStore, Secures, Ensures, ih]
    | note m => exact ih () (d := d)

@[simp] theorem secures_require {P : Prop} [Decidable P] {b : Breach}
    {Q : Unit → Image → Finset SectorId → Prop} :
    (require P b : Program Store Unit).Secures G Q d F ↔ P ∧ Q () d F := by
  by_cases h : P <;> simp [require, breach, h]

@[simp] theorem secures_difference {m n : Nat} {Q : Nat → Image → Finset SectorId → Prop} :
    (difference m n : Program Store Nat).Secures G Q d F ↔ n ≤ m ∧ Q (m - n) d F := by
  simp [difference]

@[simp] theorem secures_sum {m n : Nat} {Q : Nat → Image → Finset SectorId → Prop} :
    (sum m n : Program Store Nat).Secures G Q d F ↔
      m + n < 0x10000000000000000 ∧ Q (m + n) d F := by
  simp [sum]

@[simp] theorem secures_word {n : Nat} {Q : UInt32 → Image → Finset SectorId → Prop} :
    (word n : Program Store UInt32).Secures G Q d F ↔
      n < 0x100000000 ∧ Q (UInt32.ofNat n) d F := by
  simp [word]

@[simp] theorem secures_getOrBreach {o : Option α} {b : Breach} :
    (getOrBreach o b : Program Store α).Secures G Q d F ↔ ∃ a, o = some a ∧ Q a d F := by
  cases o <;> simp [getOrBreach, breach]

theorem secures_allocate {Q : Option SectorId → Image → Finset SectorId → Prop} :
    Store.allocate.Secures G Q d F ↔ ∀ d', Agree F d d' → (∀ d'', Agree F d d'' → G F d' d'') ∧
      Q none d' F ∧ ∀ id, id ∉ F → Q (some id) d' (insert id F) := Iff.rfl

theorem secures_release {id : SectorId} {Q : Unit → Image → Finset SectorId → Prop} :
    (Store.release id).Secures G Q d F ↔ id ∈ F ∧ ∀ d', Agree (F.erase id) d d' →
      (∀ d'', Agree (F.erase id) d d'' → G (F.erase id) d' d'') ∧ Q () d' (F.erase id) := Iff.rfl

end Program

/-- What an allocator on a device of `size` sectors keeps. It has lent out a set of sectors, all on
the device; it leaves lent sectors alone, does not mind what is written to them, never lends a
sector twice, and may refuse. `marked` is what the device shows of the loans at any moment, also
within a call. -/
structure Lender (σ : Type) [Allocator σ] (size : Nat) where
  lends : σ → Image → Finset SectorId → Prop
  marked : Image → Finset SectorId → Prop
  index_lt {a : σ} {d : Image} {U : Finset SectorId} {id : SectorId} :
    lends a d U → id ∈ U → id.index < size
  marked_of_lends {a : σ} {d : Image} {U : Finset SectorId} : lends a d U → marked d U
  write {a : σ} {d : Image} {U : Finset SectorId} {id : SectorId} {s : Sector} :
    lends a d U → id ∈ U → lends a (Function.update d id.index s) U
  allocate {a : σ} {d : Image} {U : Finset SectorId} : lends a d U →
    (Allocator.allocate a).Ensures (· < size) (fun _ d₂ => Agree U d d₂ ∧ marked d₂ U)
      (fun x d' => Agree U d d' ∧ match x with
        | (none, a') => lends a' d' U
        | (some id, a') => id ∉ U ∧ lends a' d' (insert id U)) d
  release {a : σ} {d : Image} {U : Finset SectorId} {id : SectorId} : lends a d U → id ∈ U →
    (Allocator.release a id).Ensures (· < size)
      (fun _ d₂ => Agree (U.erase id) d d₂ ∧ marked d₂ (U.erase id))
      (fun a' d' => Agree (U.erase id) d d' ∧ lends a' d' (U.erase id)) d

namespace Program

variable {σ α : Type} [Allocator σ] {size : Nat} {G : Finset SectorId → Image → Image → Prop}
  {Q : α → Image → Finset SectorId → Prop}

/-- What the allocator changes during a call is granted: it leaves alone what is owned and what is
lent to others. -/
theorem ensures_granted (l : Lender σ size) {q : Program Disk α} {Q : α → Image → Prop}
    {d e : Image} {F R : Finset SectorId}
    (h : q.Ensures (· < size) (fun _ d₂ => Agree (F ∪ R) e d₂ ∧ l.marked d₂ (F ∪ R)) Q e)
    (hd : Disjoint F R) (he : Agree R d e)
    (hG : ∀ d₁, Agree F e d₁ → ∀ d₂, Agree F e d₂ → G F d₁ d₂) :
    q.Ensures (· < size)
      (fun d₁ d₂ => ∃ F', Disjoint F' R ∧ G F' d₁ d₂ ∧ Agree R d d₂ ∧ l.marked d₂ (F' ∪ R)) Q e := by
  have hkept := h.both (I := Agree (F ∪ R) e) (fun _ _ hg => hg.1) (agree_refl _ e)
  refine hkept.mono (fun _ hn => hn) ?_ (fun _ _ hq => hq)
  rintro d₁ d₂ ⟨h₁, h₂, hm⟩
  have hF₁ := h₁.mono Finset.subset_union_left
  have hF₂ := h₂.mono Finset.subset_union_left
  exact ⟨F, hd, hG d₁ hF₁ d₂ hF₂, he.trans (h₂.mono Finset.subset_union_right), hm⟩

/-- A program that owns `F`, served by an allocator that has lent `R` to others besides: the
others' sectors stay as they are, and the loans follow what the program owns. -/
theorem Secures.serve (l : Lender σ size) {p : Program Store α} {a : σ} {d : Image}
    {F R : Finset SectorId} (h : p.Secures G Q d F) (hd : Disjoint F R)
    (hl : l.lends a d (F ∪ R)) :
    (p.serve a).Ensures (· < size)
      (fun d₁ d₂ => ∃ F', Disjoint F' R ∧ G F' d₁ d₂ ∧ Agree R d d₂ ∧ l.marked d₂ (F' ∪ R))
      (fun x d' => ∃ F', Disjoint F' R ∧ l.lends x.2 d' (F' ∪ R) ∧ Agree R d d' ∧ Q x.1 d' F')
      d := by
  suffices ∀ e, Agree R d e → l.lends a e (F ∪ R) → p.Secures G Q e F →
      (p.serve a).Ensures (· < size)
        (fun d₁ d₂ => ∃ F', Disjoint F' R ∧ G F' d₁ d₂ ∧ Agree R d d₂ ∧ l.marked d₂ (F' ∪ R))
        (fun x d' => ∃ F', Disjoint F' R ∧ l.lends x.2 d' (F' ∪ R) ∧ Agree R d d' ∧ Q x.1 d' F')
        e from this d (agree_refl R d) hl h
  clear h hl
  induction p generalizing a F with
  | done x => exact fun e he hl h => ⟨F, hd, hl, he, h⟩
  | fault f => exact fun e he hl h => h
  | ask r next ih =>
    intro e he hl h
    cases r with
    | disk r =>
      cases r with
      | read n =>
        obtain ⟨⟨id, hid, rfl⟩, hnext⟩ := h
        exact ⟨l.index_lt hl (Finset.mem_union_left R hid), ih _ hd e he hl hnext⟩
      | write n s =>
        obtain ⟨⟨id, hid, rfl⟩, hg, hnext⟩ := h
        have hmem : id ∈ F ∪ R := Finset.mem_union_left R hid
        have hnot : ¬ Owned R id.index :=
          not_owned_of_not_mem fun hr => (Finset.disjoint_left.1 hd) hid hr
        have he' : Agree R d (Function.update e id.index s) := he.trans (agree_update hnot)
        have hl' := l.write (s := s) hl hmem
        exact ⟨l.index_lt hl hmem, ⟨F, hd, hg, he', l.marked_of_lends hl'⟩,
          ih () hd _ he' hl' hnext⟩
      | note m => exact ih () hd e he hl h
    | allocate =>
      have hgranted := ensures_granted l (l.allocate hl) hd he fun d₁ h₁ => (h d₁ h₁).1
      refine ensures_bind.2 (hgranted.mono (fun _ hn => hn) (fun _ _ hg => hg) ?_)
      rintro ⟨answer, a'⟩ e' ⟨hagree, hcase⟩
      have he' : Agree R d e' := he.trans (hagree.mono Finset.subset_union_right)
      obtain ⟨-, hnone, hsome⟩ := h e' (hagree.mono Finset.subset_union_left)
      cases answer with
      | none => exact ih none hd e' he' hcase hnone
      | some id =>
        obtain ⟨hid, hl'⟩ := hcase
        rw [Finset.mem_union, not_or] at hid
        have hd' : Disjoint (insert id F) R := Finset.disjoint_insert_left.2 ⟨hid.2, hd⟩
        rw [← Finset.insert_union] at hl'
        exact ih (some id) hd' e' he' hl' (hsome id hid.1)
    | release id =>
      obtain ⟨hid, hnext⟩ := h
      have hd' : Disjoint (F.erase id) R := hd.mono_left (Finset.erase_subset id F)
      have hcall := l.release hl (Finset.mem_union_left R hid)
      rw [erase_union_of_disjoint hd hid] at hcall
      have hgranted := ensures_granted l hcall hd' he fun d₁ h₁ => (hnext d₁ h₁).1
      refine ensures_bind.2 (hgranted.mono (fun _ hn => hn) (fun _ _ hg => hg) ?_)
      rintro a' e' ⟨hagree, hl'⟩
      have he' : Agree R d e' := he.trans (hagree.mono Finset.subset_union_right)
      exact ih () hd' e' he' hl' (hnext e' (hagree.mono Finset.subset_union_left)).2

end Program

end InodeVolume

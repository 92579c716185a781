import InodeVolume.Proofs.Program.Ensures
import Mathlib.Data.Set.Insert

/-!
Programs that read only sectors whose content is known. `p.Informed Q d K` says that `p`, begun on
the image `d` while the content of the sectors of `K` is known, reads no sector that is neither in
`K` nor written before, and that `Q` holds of its result, of the image and of what is known then. A
fault ends it in any case. What a sector held that is not known makes no difference to such a
program, so it goes the same way on two devices that agree on what is known.
-/
namespace InodeVolume

namespace Program

variable {α β : Type} {Q R : α → Image → Set Nat → Prop} {d : Image} {K : Set Nat}

def Informed : Program Disk α → (α → Image → Set Nat → Prop) → Image → Set Nat → Prop
  | done a, Q, d, K => Q a d K
  | fault _, _, _, _ => True
  | ask (.read n) next, Q, d, K => n ∈ K ∧ Informed (next (d n)) Q d K
  | ask (.write n s) next, Q, d, K =>
    Informed (next ()) Q (Function.update d n s) (insert n K)
  | ask (.note _) next, Q, d, K => Informed (next ()) Q d K

@[simp] theorem informed_done {a : α} : (done a).Informed Q d K ↔ Q a d K := Iff.rfl

@[simp] theorem informed_fault {f : Fault} : (fault f : Program Disk α).Informed Q d K := trivial

@[simp] theorem informed_breach {b : Breach} : (breach b : Program Disk α).Informed Q d K := trivial

@[simp] theorem informed_bind {p : Program Disk α} {k : α → Program Disk β}
    {Q : β → Image → Set Nat → Prop} : (p.bind k).Informed Q d K ↔
      p.Informed (fun a d' K' => (k a).Informed Q d' K') d K := by
  induction p generalizing d K with
  | done a => rfl
  | fault f => exact Iff.rfl
  | ask r next ih =>
    cases r with
    | read n => simp only [ask_bind, Informed, ih]
    | write n s => simp only [ask_bind, Informed, ih]
    | note m => exact ih ()

theorem Informed.imp {p : Program Disk α} (h : p.Informed Q d K)
    (hQ : ∀ a d' K', Q a d' K' → R a d' K') : p.Informed R d K := by
  induction p generalizing d K with
  | done a => exact hQ a d K h
  | fault f => trivial
  | ask r next ih =>
    cases r with
    | read n => exact ⟨h.1, ih (d n) h.2⟩
    | write n s => exact ih () h
    | note m => exact ih () h

/-- Nothing that is known is forgotten. -/
theorem Informed.grows {p : Program Disk α} (h : p.Informed Q d K) :
    p.Informed (fun a d' K' => Q a d' K' ∧ K ⊆ K') d K := by
  induction p generalizing d K with
  | done a => exact ⟨h, Set.Subset.rfl⟩
  | fault f => trivial
  | ask r next ih =>
    cases r with
    | read n => exact ⟨h.1, ih (d n) h.2⟩
    | write n s =>
      exact (ih () h).imp fun a d' K' hx => ⟨hx.1, (Set.subset_insert n K).trans hx.2⟩
    | note m => exact ih () h

/-- What is known of the end of a program besides. -/
theorem Informed.and {A : Nat → Prop} {G : Image → Image → Prop} {S : α → Image → Prop}
    {p : Program Disk α} (h : p.Informed Q d K) (hp : p.Ensures A G S d) :
    p.Informed (fun a d' K' => Q a d' K' ∧ S a d') d K := by
  induction p generalizing d K with
  | done a => exact ⟨h, hp⟩
  | fault f => trivial
  | ask r next ih =>
    cases r with
    | read n => exact ⟨h.1, ih (d n) h.2 hp.2⟩
    | write n s => exact ih () h hp.2.2
    | note m => exact ih () h hp

/-- A program that touches known sectors only learns nothing. -/
theorem Ensures.informed {A : Nat → Prop} {G : Image → Image → Prop} {S : α → Image → Prop}
    {p : Program Disk α} (h : p.Ensures A G S d) (hA : ∀ n, A n → n ∈ K) :
    p.Informed (fun a d' K' => S a d' ∧ K' = K) d K := by
  induction p generalizing d with
  | done a => exact ⟨h, rfl⟩
  | fault f => trivial
  | ask r next ih =>
    cases r with
    | read n => exact ⟨hA n h.1, ih (d n) h.2⟩
    | write n s =>
      rw [Informed, Set.insert_eq_of_mem (hA n h.1)]
      exact ih () h.2.2
    | note m => exact ih () h

/-- What is known of the end of a program that ends without a fault. -/
theorem Ensures.and {A : Nat → Prop} {G : Image → Image → Prop} {S : α → Image → Prop}
    {p : Program Disk α} (h : p.Ensures A G S d) (hp : p.Informed Q d K) :
    p.Ensures A G (fun a d' => S a d' ∧ ∃ K', Q a d' K') d := by
  induction p generalizing d K with
  | done a => exact ⟨h, K, hp⟩
  | fault f => exact h
  | ask r next ih =>
    cases r with
    | read n => exact ⟨h.1, ih (d n) h.2 hp.2⟩
    | write n s => exact ⟨h.1, h.2.1, ih () h.2.2 hp⟩
    | note m => exact ih () h hp

section Steps

@[simp] theorem informed_require {P : Prop} [Decidable P] {b : Breach}
    {Q : Unit → Image → Set Nat → Prop} :
    (require P b : Program Disk Unit).Informed Q d K ↔ (P → Q () d K) := by
  by_cases h : P <;> simp [require, h]

@[simp] theorem informed_getOrBreach {o : Option α} {b : Breach} :
    (getOrBreach o b : Program Disk α).Informed Q d K ↔ ∀ a, o = some a → Q a d K := by
  cases o <;> simp [getOrBreach]

@[simp] theorem informed_word {n : Nat} {Q : UInt32 → Image → Set Nat → Prop} :
    (word n : Program Disk UInt32).Informed Q d K ↔
      (n < 0x100000000 → Q (UInt32.ofNat n) d K) := by
  simp [word]

@[simp] theorem informed_readSector {n : Nat} {Q : Sector → Image → Set Nat → Prop} :
    (Disk.readSector n).Informed Q d K ↔ n ∈ K ∧ Q (d n) d K := Iff.rfl

@[simp] theorem informed_writeSector {n : Nat} {s : Sector} {Q : Unit → Image → Set Nat → Prop} :
    (Disk.writeSector n s).Informed Q d K ↔ Q () (Function.update d n s) (insert n K) := Iff.rfl

@[simp] theorem informed_note {m : Notice} {Q : Unit → Image → Set Nat → Prop} :
    (Disk.note m).Informed Q d K ↔ Q () d K := Iff.rfl

variable [SectorLayout α]

@[simp] theorem informed_load {id : SectorId} :
    (Disk.load id : Program Disk α).Informed Q d K ↔
      id.index ∈ K ∧ Q (decode (d id.index)) d K := by
  simp [Disk.load]

@[simp] theorem informed_store {id : SectorId} {a : α} {Q : Unit → Image → Set Nat → Prop} :
    (Disk.store id a).Informed Q d K ↔
      Q () (Function.update d id.index (encode a)) (insert id.index K) := by
  simp [Disk.store]

@[simp] theorem informed_clear {id : SectorId} {Q : Unit → Image → Set Nat → Prop} :
    (Disk.clear id).Informed Q d K ↔
      Q () (Function.update d id.index Sector.zero) (insert id.index K) := by
  simp [Disk.clear]

/-- A loop over consecutive numbers keeps `I`, which may speak of the next number. -/
theorem informed_forRange {step : Nat → Program Disk Unit} {I : Nat → Set Nat → Prop}
    {first count : Nat} {Q : Unit → Image → Set Nat → Prop}
    (hstep : ∀ i e L, first ≤ i → i < first + count → I i L →
      (step i).Informed (fun _ _ L' => I (i + 1) L') e L)
    (hK : I first K) (hQ : ∀ e L, I (first + count) L → Q () e L) :
    (forRange first count step).Informed Q d K := by
  induction count generalizing first d K with
  | zero => exact hQ d K hK
  | succ count ih =>
    rw [forRange, bind_eq, informed_bind]
    refine (hstep first d K (Nat.le_refl _) (by omega) hK).imp fun _ e L hL => ih ?_ hL ?_
    · intro i e' L' h₁ h₂ hi
      exact hstep i e' L' (by omega) (by omega) hi
    · intro e' L' hL'
      exact hQ e' L' (by rwa [show first + (count + 1) = first + 1 + count by omega])

end Steps

section Runs

open LawfulBlockDevice

variable {δ δ' : Type} [BlockDevice δ] [LawfulBlockDevice δ] [BlockDevice δ']
  [LawfulBlockDevice δ']

/-- Two worlds that show the same to whoever knows only the sectors of `K`. -/
structure Indistinct (K : Set Nat) (w : World δ) (w' : World δ') : Prop where
  image_eq : ∀ n ∈ K, image w'.device n = image w.device n
  journal_eq : w'.journal = w.journal

/-- How a run comes to know `K'` when it began with `K`: it has written what is new. -/
structure Learnt (K : Set Nat) (w : World δ) (K' : Set Nat) (v : World δ) : Prop where
  subset : K ⊆ K'
  written : ∀ e ∈ v.writes, e ∈ w.writes ∨ e.1 ∈ K'
  size_eq : size v.device = size w.device

/-- Who writes the same to both of them knows what he has written. -/
theorem Indistinct.put {n : Nat} {w : World δ} {u : World δ'} (h : Indistinct K w u)
    (hn : n < size w.device) (hn' : n < size u.device) (s : Sector) :
    Indistinct (insert n K)
      (⟨BlockDevice.put w.device n s, w.journal.push (.wrote n s)⟩ : World δ)
      (⟨BlockDevice.put u.device n s, u.journal.push (.wrote n s)⟩ : World δ') := by
  refine ⟨fun k hk => ?_, congrArg (Array.push · _) h.journal_eq⟩
  rw [image_put s hn, image_put s hn']
  by_cases hkn : k = n
  · rw [hkn, Function.update_self, Function.update_self]
  · rw [Function.update_of_ne hkn, Function.update_of_ne hkn]
    exact h.image_eq k (Set.mem_of_mem_insert_of_ne hk hkn)

/-- What is written is known from then on. -/
theorem Learnt.of_put {n : Nat} {s : Sector} {w v : World δ} (hn : n < size w.device)
    (h : Learnt (insert n K) ⟨BlockDevice.put w.device n s, w.journal.push (.wrote n s)⟩ K' v) :
    Learnt K w K' v where
  subset := (Set.subset_insert n K).trans h.subset
  written x hx := by
    rcases h.written x hx with hold | hnew
    · have hwrites : (⟨BlockDevice.put w.device n s, w.journal.push (.wrote n s)⟩ :
          World δ).writes = w.writes ++ [(n, s)] := by simp [World.writes]
      rw [hwrites, List.mem_append, List.mem_singleton] at hold
      rcases hold with hold | rfl
      · exact Or.inl hold
      · exact Or.inr (h.subset (Set.mem_insert n K))
    · exact Or.inr hnew
  size_eq := h.size_eq.trans (size_put s hn)

/-- A note tells nothing. -/
theorem Learnt.of_note {n : Notice} {w v : World δ}
    (h : Learnt K ⟨w.device, w.journal.push (.noted n)⟩ K' v) : Learnt K w K' v where
  subset := h.subset
  written x hx := by
    have hwrites : (⟨w.device, w.journal.push (.noted n)⟩ : World δ).writes = w.writes := by
      simp [World.writes]
    rw [← hwrites]
    exact h.written x hx
  size_eq := h.size_eq

/-- A program goes the same way on devices that agree on what is known. -/
theorem Informed.run_indistinct {A : Nat → Prop} {G : Image → Image → Prop} {S : α → Image → Prop}
    {p : Program Disk α} {w : World δ} {u : World δ'} (h : p.Informed Q (image w.device) K)
    (hp : p.Ensures A G S (image w.device)) (hA : ∀ n, A n → n < size w.device)
    (hA' : ∀ n, A n → n < size u.device) (hw : Indistinct K w u) :
    ∃ a v v' K', p.run w = (.ok a, v) ∧ p.run u = (.ok a, v') ∧ Q a (image v.device) K' ∧
      Indistinct K' v v' ∧ Learnt K w K' v ∧ size v'.device = size u.device := by
  induction p generalizing w u K with
  | done a =>
    exact ⟨a, w, u, K, rfl, rfl, h, hw, ⟨Set.Subset.rfl, fun _ => Or.inl, rfl⟩, rfl⟩
  | fault f => exact hp.elim
  | ask r next ih =>
    cases r with
    | read n =>
      obtain ⟨hn, hnext⟩ := hp
      simp only [Program.run, readBlock_eq (hA n hn), readBlock_eq (hA' n hn),
        hw.image_eq n h.1]
      exact ih _ h.2 hnext hA hA' hw
    | write n s =>
      obtain ⟨hn, -, hnext⟩ := hp
      have hlt : n < size w.device := hA n hn
      have hlt' : n < size u.device := hA' n hn
      have hi : image (BlockDevice.put w.device n s) = Function.update (image w.device) n s :=
        image_put s hlt
      simp only [Program.run]
      rw [acceptWrite_eq hlt, acceptWrite_eq hlt']
      obtain ⟨a, v, v', K', hrun, hrun', hq, hv, hlearnt, hsize⟩ := ih ()
        (w := ⟨BlockDevice.put w.device n s, w.journal.push (.wrote n s)⟩)
        (u := ⟨BlockDevice.put u.device n s, u.journal.push (.wrote n s)⟩)
        (by rwa [hi]) (by rwa [hi])
        (fun k hk => (hA k hk).trans_eq (size_put s hlt).symm)
        (fun k hk => (hA' k hk).trans_eq (size_put s hlt').symm) (hw.put hlt hlt' s)
      exact ⟨a, v, v', K', hrun, hrun', hq, hv, hlearnt.of_put hlt,
        hsize.trans (size_put s hlt')⟩
    | note n =>
      simp only [Program.run]
      obtain ⟨a, v, v', K', hrun, hrun', hq, hv, hlearnt, hsize⟩ := ih ()
        (w := ⟨w.device, w.journal.push (.noted n)⟩)
        (u := ⟨u.device, u.journal.push (.noted n)⟩) h hp hA hA'
        ⟨hw.image_eq, congrArg (Array.push · _) hw.journal_eq⟩
      exact ⟨a, v, v', K', hrun, hrun', hq, hv, hlearnt.of_note, hsize⟩

/-- What a program comes to holds where a run of it has ended. -/
theorem Informed.of_run {A : Nat → Prop} {G : Image → Image → Prop} {S : α → Image → Prop}
    {p : Program Disk α} {w w' : World δ} {a : α} (h : p.Informed Q (image w.device) K)
    (hp : p.Ensures A G S (image w.device)) (hA : ∀ n, A n → n < size w.device)
    (hrun : p.run w = (.ok a, w')) : ∃ K', Q a (image w'.device) K' := by
  obtain ⟨b, v, v', K', hv, -, hq, -⟩ := h.run_indistinct hp hA hA ⟨fun _ _ => rfl, rfl⟩
  rw [hrun] at hv
  cases hv
  exact ⟨K', hq⟩

end Runs

end Program

end InodeVolume

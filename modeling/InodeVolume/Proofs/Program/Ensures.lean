import InodeVolume.Proofs.Device.Image

/-!
What a program does to the image of a device. `p.Ensures A G Q d` says that `p`, begun on the image
`d`, ends without a fault, touches only sectors of `A`, and leaves a result and an image of which
`Q` holds. Each write takes an image to another one, and `G` grants every such step; so `G` also
tells what is on the device wherever a run is cut short.
-/
namespace InodeVolume

namespace Program

variable {α β : Type} {A : Nat → Prop} {G : Image → Image → Prop} {Q : α → Image → Prop}
  {d : Image}

def Ensures (A : Nat → Prop) (G : Image → Image → Prop) :
    Program Disk α → (α → Image → Prop) → Image → Prop
  | done a, Q, d => Q a d
  | fault _, _, _ => False
  | ask (.read n) next, Q, d => A n ∧ Ensures A G (next (d n)) Q d
  | ask (.write n s) next, Q, d =>
    A n ∧ G d (Function.update d n s) ∧ Ensures A G (next ()) Q (Function.update d n s)
  | ask (.note _) next, Q, d => Ensures A G (next ()) Q d

@[simp] theorem ensures_done {a : α} : (done a).Ensures A G Q d ↔ Q a d := Iff.rfl

@[simp] theorem ensures_fault {f : Fault} : ¬ (fault f : Program Disk α).Ensures A G Q d := id

@[simp] theorem ensures_bind {p : Program Disk α} {k : α → Program Disk β} {Q : β → Image → Prop} :
    (p.bind k).Ensures A G Q d ↔ p.Ensures A G (fun a d' => (k a).Ensures A G Q d') d := by
  induction p generalizing d with
  | done a => rfl
  | fault f => rfl
  | ask r next ih =>
    cases r with
    | read n => simp only [ask_bind, Ensures, ih]
    | write n s => simp only [ask_bind, Ensures, ih]
    | note m => exact ih () (d := d)

theorem Ensures.mono {A' : Nat → Prop} {G' : Image → Image → Prop} {Q' : α → Image → Prop}
    {p : Program Disk α} (h : p.Ensures A G Q d) (hA : ∀ n, A n → A' n)
    (hG : ∀ d₁ d₂, G d₁ d₂ → G' d₁ d₂) (hQ : ∀ a d', Q a d' → Q' a d') :
    p.Ensures A' G' Q' d := by
  induction p generalizing d with
  | done a => exact hQ a d h
  | fault f => exact h
  | ask r next ih =>
    cases r with
    | read n => exact ⟨hA n h.1, ih (d n) h.2⟩
    | write n s => exact ⟨hA n h.1, hG _ _ h.2.1, ih () h.2.2⟩
    | note m => exact ih () h

theorem Ensures.imp {Q' : α → Image → Prop} {p : Program Disk α} (h : p.Ensures A G Q d)
    (hQ : ∀ a d', Q a d' → Q' a d') : p.Ensures A G Q' d :=
  h.mono (fun _ => id) (fun _ _ => id) hQ

/-- A program leaves alone the sectors that it may not touch. -/
theorem Ensures.frame {p : Program Disk α} (h : p.Ensures A G Q d) :
    p.Ensures A (fun d₁ d₂ => G d₁ d₂ ∧ ∀ n, ¬ A n → d₂ n = d n)
      (fun a d' => Q a d' ∧ ∀ n, ¬ A n → d' n = d n) d := by
  suffices ∀ e, (∀ n, ¬ A n → e n = d n) → p.Ensures A G Q e →
      p.Ensures A (fun d₁ d₂ => G d₁ d₂ ∧ ∀ n, ¬ A n → d₂ n = d n)
        (fun a d' => Q a d' ∧ ∀ n, ¬ A n → d' n = d n) e from this d (fun _ _ => rfl) h
  clear h
  induction p with
  | done a => exact fun e he h => ⟨h, he⟩
  | fault f => exact fun e he h => h
  | ask r next ih =>
    intro e he h
    cases r with
    | read n => exact ⟨h.1, ih (e n) e he h.2⟩
    | write n s =>
      have he' : ∀ m, ¬ A m → Function.update e n s m = d m := by
        intro m hm
        have hne : m ≠ n := fun hmn => hm (hmn ▸ h.1)
        rw [Function.update_of_ne hne]
        exact he m hm
      exact ⟨h.1, ⟨h.2.1, he'⟩, ih () _ he' h.2.2⟩
    | note m => exact ih () e he h

/-- What every write leaves true is true on both sides of the next write. -/
theorem Ensures.both {I : Image → Prop} {p : Program Disk α} (h : p.Ensures A G Q d)
    (hG : ∀ d₁ d₂, G d₁ d₂ → I d₂) (hd : I d) :
    p.Ensures A (fun d₁ d₂ => I d₁ ∧ G d₁ d₂) Q d := by
  induction p generalizing d with
  | done a => exact h
  | fault f => exact h
  | ask r next ih =>
    cases r with
    | read n => exact ⟨h.1, ih (d n) h.2 hd⟩
    | write n s => exact ⟨h.1, ⟨hd, h.2.1⟩, ih () h.2.2 (hG _ _ h.2.1)⟩
    | note m => exact ih () h hd

/-- What every write leaves true is true in the end. -/
theorem Ensures.along {I : Image → Prop} {p : Program Disk α} (h : p.Ensures A G Q d)
    (hG : ∀ d₁ d₂, G d₁ d₂ → I d₂) (hd : I d) :
    p.Ensures A (fun _ d₂ => I d₂) (fun a d' => Q a d' ∧ I d') d := by
  induction p generalizing d with
  | done a => exact ⟨h, hd⟩
  | fault f => exact h
  | ask r next ih =>
    cases r with
    | read n => exact ⟨h.1, ih (d n) h.2 hd⟩
    | write n s => exact ⟨h.1, hG _ _ h.2.1, ih () h.2.2 (hG _ _ h.2.1)⟩
    | note m => exact ih () h hd

section Steps

@[simp] theorem ensures_require {P : Prop} [Decidable P] {b : Breach} {Q : Unit → Image → Prop} :
    (require P b : Program Disk Unit).Ensures A G Q d ↔ P ∧ Q () d := by
  by_cases h : P <;> simp [require, breach, h]

@[simp] theorem ensures_getOrBreach {o : Option α} {b : Breach} :
    (getOrBreach o b : Program Disk α).Ensures A G Q d ↔ ∃ a, o = some a ∧ Q a d := by
  cases o <;> simp [getOrBreach, breach]

@[simp] theorem ensures_word {n : Nat} {Q : UInt32 → Image → Prop} :
    (word n : Program Disk UInt32).Ensures A G Q d ↔ n < 0x100000000 ∧ Q (UInt32.ofNat n) d := by
  simp [word]

@[simp] theorem ensures_sum {m n : Nat} {Q : Nat → Image → Prop} :
    (sum m n : Program Disk Nat).Ensures A G Q d ↔ m + n < 0x10000000000000000 ∧ Q (m + n) d := by
  simp [sum]

@[simp] theorem ensures_difference {m n : Nat} {Q : Nat → Image → Prop} :
    (difference m n : Program Disk Nat).Ensures A G Q d ↔ n ≤ m ∧ Q (m - n) d := by
  simp [difference]

@[simp] theorem ensures_readSector {n : Nat} {Q : Sector → Image → Prop} :
    (Disk.readSector n).Ensures A G Q d ↔ A n ∧ Q (d n) d := Iff.rfl

@[simp] theorem ensures_writeSector {n : Nat} {s : Sector} {Q : Unit → Image → Prop} :
    (Disk.writeSector n s).Ensures A G Q d ↔
      A n ∧ G d (Function.update d n s) ∧ Q () (Function.update d n s) := Iff.rfl

@[simp] theorem ensures_note {m : Notice} {Q : Unit → Image → Prop} :
    (Disk.note m).Ensures A G Q d ↔ Q () d := Iff.rfl

variable [SectorLayout α]

@[simp] theorem ensures_load {id : SectorId} :
    (Disk.load id : Program Disk α).Ensures A G Q d ↔ A id.index ∧ Q (decode (d id.index)) d := by
  simp [Disk.load]

@[simp] theorem ensures_store {id : SectorId} {a : α} {Q : Unit → Image → Prop} :
    (Disk.store id a).Ensures A G Q d ↔ A id.index ∧
      G d (Function.update d id.index (encode a)) ∧
      Q () (Function.update d id.index (encode a)) := by
  simp [Disk.store]

@[simp] theorem ensures_clear {id : SectorId} {Q : Unit → Image → Prop} :
    (Disk.clear id).Ensures A G Q d ↔ A id.index ∧
      G d (Function.update d id.index Sector.zero) ∧
      Q () (Function.update d id.index Sector.zero) := by
  simp [Disk.clear]

/-- A loop over consecutive numbers keeps `I`, which may speak of the next number. -/
theorem ensures_forRange {step : Nat → Program Disk Unit} {I : Nat → Image → Prop}
    {first count : Nat} {Q : Unit → Image → Prop}
    (hstep : ∀ i e, first ≤ i → i < first + count → I i e →
      (step i).Ensures A G (fun _ e' => I (i + 1) e') e)
    (hd : I first d) (hQ : ∀ e, I (first + count) e → Q () e) :
    (forRange first count step).Ensures A G Q d := by
  induction count generalizing first d with
  | zero => exact hQ d hd
  | succ count ih =>
    rw [forRange, bind_eq, ensures_bind]
    refine (hstep first d (Nat.le_refl _) (by omega) hd).imp fun _ e he => ih ?_ he ?_
    · intro i e' h₁ h₂ hi
      exact hstep i e' (by omega) (by omega) hi
    · intro e' he'
      exact hQ e' (by rwa [show first + (count + 1) = first + 1 + count by omega])

end Steps

section Runs

open LawfulBlockDevice

variable {δ : Type} [BlockDevice δ] [LawfulBlockDevice δ]

/-- Each of the writes, made in order from `d` on, is granted. -/
def Granted (G : Image → Image → Prop) (d : Image) : List (Nat × Sector) → Prop
  | [] => True
  | (n, s) :: rest => G d (Function.update d n s) ∧ Granted G (Function.update d n s) rest

/-- How a run on a device ends, and what is on the device at any point of it. -/
theorem Ensures.run {p : Program Disk α} {w : World δ} (h : p.Ensures A G Q (image w.device))
    (hA : ∀ n, A n → n < size w.device) :
    ∃ a w' writes, p.run w = (.ok a, w') ∧ Q a (image w'.device) ∧
      size w'.device = size w.device ∧ w'.writes = w.writes ++ writes ∧
      w'.device = replay w.device writes ∧ (∀ v ∈ writes, v.1 < size w.device) ∧
      Granted G (image w.device) writes := by
  induction p generalizing w with
  | done a => exact ⟨a, w, [], rfl, h, rfl, by simp, rfl, by simp, trivial⟩
  | fault f => exact h.elim
  | ask r next ih =>
    cases r with
    | read n =>
      obtain ⟨hn, hnext⟩ := h
      simp only [Program.run, readBlock_eq (hA n hn)]
      exact ih _ hnext hA
    | write n s =>
      obtain ⟨hn, hg, hnext⟩ := h
      rcases w with ⟨device, journal⟩
      have hlt : n < size device := hA n hn
      have hi : image (BlockDevice.put device n s) = Function.update (image device) n s :=
        image_put s hlt
      have hs : size (BlockDevice.put device n s) = size device := size_put s hlt
      simp only [Program.run]
      rw [acceptWrite_eq hlt]
      obtain ⟨a, w', writes, hrun, hq, hsize, hw, hr, hb, hgs⟩ :=
        ih () (w := ⟨BlockDevice.put device n s, journal.push (.wrote n s)⟩)
          (by rwa [hi]) (fun m hm => by rw [hs]; exact hA m hm)
      refine ⟨a, w', (n, s) :: writes, hrun, hq, hsize.trans hs, ?_, hr, ?_, hg, ?_⟩
      · rw [hw]
        simp [World.writes]
      · intro v hv
        rcases List.mem_cons.1 hv with rfl | hv
        · exact hlt
        · rw [← hs]
          exact hb v hv
      · rwa [← hi]
    | note m =>
      rcases w with ⟨device, journal⟩
      simp only [Program.run]
      obtain ⟨a, w', writes, hrun, hq, hsize, hw, hr, hb, hgs⟩ :=
        ih () (w := ⟨device, journal.push (.noted m)⟩) h hA
      refine ⟨a, w', writes, hrun, hq, hsize, ?_, hr, hb, hgs⟩
      rw [hw]
      simp [World.writes]

/-- A program that is granted no write leaves the device as it is. -/
theorem Ensures.run_silent {p : Program Disk α} {w : World δ}
    (h : p.Ensures A (fun _ _ => False) Q (image w.device)) (hA : ∀ n, A n → n < size w.device) :
    ∃ a w', p.run w = (.ok a, w') ∧ Q a (image w'.device) ∧ w'.device = w.device ∧
      w'.writes = w.writes := by
  obtain ⟨a, w', writes, hrun, hq, -, hwrites, hdevice, -, hgranted⟩ := h.run hA
  cases writes with
  | nil => exact ⟨a, w', hrun, hq, hdevice, hwrites.trans (List.append_nil _)⟩
  | cons v rest => exact hgranted.1.elim

/-- The sectors that a run reads or writes, in order. -/
def accesses : Program Disk α → δ → List Nat
  | done _, _ => []
  | fault _, _ => []
  | ask (.read n) next, d => n :: match BlockDevice.readBlock d n 512 with
    | .ok s => accesses (next s) d
    | .error _ => []
  | ask (.write n s) next, d => n :: match BlockDevice.acceptWrite d n 512 with
    | .ok _ => accesses (next ()) (BlockDevice.put d n s)
    | .error _ => []
  | ask (.note _) next, d => accesses (next ()) d

/-- A run touches no sector but those that its program may touch. -/
theorem Ensures.accesses {p : Program Disk α} {device : δ} (h : p.Ensures A G Q (image device))
    (hA : ∀ n, A n → n < size device) : ∀ n ∈ p.accesses device, A n := by
  induction p generalizing device with
  | done a => exact List.forall_mem_nil A
  | fault f => exact List.forall_mem_nil A
  | ask r next ih =>
    cases r with
    | read n =>
      obtain ⟨hn, hnext⟩ := h
      simp only [Program.accesses, readBlock_eq (hA n hn)]
      exact List.forall_mem_cons.2 ⟨hn, ih _ hnext hA⟩
    | write n s =>
      obtain ⟨hn, -, hnext⟩ := h
      have hlt : n < size device := hA n hn
      rw [Program.accesses, acceptWrite_eq hlt]
      refine List.forall_mem_cons.2 ⟨hn, ih () ?_ fun m hm => ?_⟩
      · rwa [image_put s hlt]
      · rw [size_put s hlt]
        exact hA m hm
    | note m => exact ih () h hA

/-- A run writes no sector but those that its program may touch. -/
theorem Ensures.writes_within {p : Program Disk α} {w w' : World δ} {x : Except Fault α}
    (h : p.Ensures A G Q (image w.device)) (hA : ∀ n, A n → n < size w.device)
    (hrun : p.run w = (x, w')) :
    ∃ writes, w'.writes = w.writes ++ writes ∧ ∀ v ∈ writes, A v.1 := by
  induction p generalizing w with
  | done a =>
    cases hrun
    exact ⟨[], (List.append_nil _).symm, List.forall_mem_nil _⟩
  | fault f => exact h.elim
  | ask r next ih =>
    cases r with
    | read n =>
      simp only [Program.run, readBlock_eq (hA n h.1)] at hrun
      exact ih _ h.2 hA hrun
    | write n s =>
      obtain ⟨hn, -, hnext⟩ := h
      rcases w with ⟨device, journal⟩
      have hlt : n < size device := hA n hn
      have hi : image (BlockDevice.put device n s) = Function.update (image device) n s :=
        image_put s hlt
      have hs : size (BlockDevice.put device n s) = size device := size_put s hlt
      simp only [Program.run] at hrun
      rw [acceptWrite_eq hlt] at hrun
      obtain ⟨writes, hwrites, hwithin⟩ :=
        ih () (w := ⟨BlockDevice.put device n s, journal.push (.wrote n s)⟩) (by rwa [hi])
          (fun m hm => by rw [hs]; exact hA m hm) hrun
      refine ⟨(n, s) :: writes, ?_, List.forall_mem_cons.2 ⟨hn, hwithin⟩⟩
      rw [hwrites]
      simp [World.writes]
    | note m =>
      rcases w with ⟨device, journal⟩
      obtain ⟨writes, hwrites, hwithin⟩ :=
        ih () (w := ⟨device, journal.push (.noted m)⟩) h hA hrun
      refine ⟨writes, ?_, hwithin⟩
      rw [hwrites]
      simp [World.writes]

/-- What a program ensures holds of a run that has ended. -/
theorem Ensures.of_run {p : Program Disk α} {w w' : World δ} {a : α}
    (h : p.Ensures A G Q (image w.device)) (hA : ∀ n, A n → n < size w.device)
    (hrun : p.run w = (.ok a, w')) : Q a (image w'.device) ∧ size w'.device = size w.device := by
  obtain ⟨b, w₁, writes, hrun₁, hq, hsize, -⟩ := h.run hA
  rw [hrun₁] at hrun
  cases hrun
  exact ⟨hq, hsize⟩

/-- Devices of one image cannot be told apart. -/
theorem Ensures.run_congr {p : Program Disk α} {v w : World δ}
    (h : p.Ensures A G Q (image v.device)) (hA : ∀ n, A n → n < size v.device)
    (himage : image w.device = image v.device) (hsize : size w.device = size v.device) :
    ∃ a v' w', p.run v = (.ok a, v') ∧ p.run w = (.ok a, w') ∧
      image w'.device = image v'.device ∧ size w'.device = size v'.device := by
  induction p generalizing v w with
  | done a => exact ⟨a, v, w, rfl, rfl, himage, hsize⟩
  | fault f => exact h.elim
  | ask r next ih =>
    cases r with
    | read n =>
      obtain ⟨hn, hnext⟩ := h
      have hlt := hA n hn
      simp only [Program.run, readBlock_eq hlt, readBlock_eq (hsize ▸ hlt), himage]
      exact ih _ hnext hA himage hsize
    | write n s =>
      obtain ⟨hn, -, hnext⟩ := h
      rcases v with ⟨d₁, j₁⟩
      rcases w with ⟨d₂, j₂⟩
      have hlt₁ : n < size d₁ := hA n hn
      have hlt₂ : n < size d₂ := Nat.lt_of_lt_of_eq hlt₁ hsize.symm
      have hput : size (BlockDevice.put d₁ n s) = size d₁ := size_put s hlt₁
      simp only [Program.run]
      rw [acceptWrite_eq hlt₁, acceptWrite_eq hlt₂]
      refine ih () (v := ⟨BlockDevice.put d₁ n s, j₁.push (.wrote n s)⟩)
        (w := ⟨BlockDevice.put d₂ n s, j₂.push (.wrote n s)⟩) ?_ ?_ ?_ ?_
      · rwa [show image (BlockDevice.put d₁ n s) = _ from image_put s hlt₁]
      · intro k hk
        rw [hput]
        exact hA k hk
      · rw [show image (BlockDevice.put d₂ n s) = _ from image_put s hlt₂,
          show image (BlockDevice.put d₁ n s) = _ from image_put s hlt₁]
        exact congrArg (Function.update · n s) himage
      · exact (size_put s hlt₂).trans (hsize.trans hput.symm)
    | note m =>
      rcases v with ⟨d₁, j₁⟩
      rcases w with ⟨d₂, j₂⟩
      exact ih () (v := ⟨d₁, j₁.push (.noted m)⟩) (w := ⟨d₂, j₂.push (.noted m)⟩) h hA himage
        hsize

variable {writes : List (Nat × Sector)}

/-- What each write leaves true is true wherever the writes are cut short. -/
theorem Granted.holds {I : Image → Prop} (h : Granted G d writes) (hG : ∀ d₁ d₂, G d₁ d₂ → I d₂)
    (hd : I d) (k : Nat) : I (d.replay (writes.take k)) := by
  induction writes generalizing d k with
  | nil => simpa [Image.replay] using hd
  | cons v rest ih =>
    cases k with
    | zero => exact hd
    | succ k => exact ih h.2 (hG _ _ h.1) k

/-- What no write makes smaller is at most what it is in the end. -/
theorem Granted.measure_le {f : Image → Nat} (h : Granted G d writes)
    (hG : ∀ d₁ d₂, G d₁ d₂ → f d₁ ≤ f d₂) (k : Nat) :
    f (d.replay (writes.take k)) ≤ f (d.replay writes) := by
  induction writes generalizing d k with
  | nil => simp
  | cons v rest ih =>
    cases k with
    | zero => exact Nat.le_trans (hG _ _ h.1) (ih h.2 0)
    | succ k => exact ih h.2 k

end Runs

/-- What was journalled before makes no difference to a run. -/
theorem run_journal {δ : Type} [BlockDevice δ] (p : Program Disk α) (d : δ) (j j' : Array Event) :
    (p.run ⟨d, j⟩).1 = (p.run ⟨d, j'⟩).1 ∧ (p.run ⟨d, j⟩).2.device = (p.run ⟨d, j'⟩).2.device := by
  induction p generalizing d j j' with
  | done a => exact ⟨rfl, rfl⟩
  | fault f => exact ⟨rfl, rfl⟩
  | ask r next ih =>
    cases r with
    | read n =>
      simp only [run]
      split
      · exact ih _ _ _ _
      · exact ⟨rfl, rfl⟩
    | write n s =>
      simp only [run]
      split
      · exact ih _ _ _ _
      · exact ⟨rfl, rfl⟩
    | note m => exact ih _ _ _ _

end Program

end InodeVolume

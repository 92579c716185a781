import InodeVolume.Proofs.Program.Ensures

/-!
Programs that only read, on a device that may refuse them sectors. What such a program would do on
an image of zeros wherever the device refuses, it does on the device, until it is refused.
-/
namespace InodeVolume

namespace BlockDevice

variable {δ : Type} [BlockDevice δ] {e : δ} {n : Nat} {s : Sector}

/-- What a device answers when its sectors are read; zeros where it refuses. -/
def answers (e : δ) : Image := fun n =>
  match readBlock e n 512 with
  | .ok s => s
  | .error _ => Sector.zero

theorem answers_of_ok (h : readBlock e n 512 = .ok s) : answers e n = s := by
  rw [answers, h]

end BlockDevice

namespace Program

open BlockDevice LawfulBlockDevice

variable {α δ : Type} [BlockDevice δ] [LawfulBlockDevice δ] {e : δ} {w : World δ} {n : Nat}
  {p : Program Disk α} {A : Nat → Prop} {Q : α → Prop}

/-- A run that writes nothing. It ends with a result of which `Q` holds, or it ends because the
device has refused it a sector of `A`, which lies outside the device. -/
def OnlyReads (p : Program Disk α) (A : Nat → Prop) (Q : α → Prop) (w : World δ) : Prop :=
  ∃ x w', p.run w = (x, w') ∧ w'.device = w.device ∧ w'.writes = w.writes ∧ match x with
    | .ok a => Q a
    | .error f => ∃ n refusal, f = .refused refusal ∧ n ∈ p.accesses w.device ∧ A n ∧
      size w.device ≤ n ∧ readBlock w.device n 512 = .error refusal

theorem size_le_of_refused {refusal : Refusal}
    (h : readBlock e n 512 = .error refusal) : size e ≤ n := by
  by_contra hlt
  rw [readBlock_eq (Nat.not_le.1 hlt)] at h
  cases h

theorem Ensures.onlyReads
    (h : p.Ensures A (fun _ _ => False) (fun a _ => Q a) (answers w.device)) :
    p.OnlyReads A Q w := by
  induction p generalizing w with
  | done a => exact ⟨.ok a, w, rfl, rfl, rfl, h⟩
  | fault f => exact h.elim
  | ask r next ih =>
    cases r with
    | read n =>
      obtain ⟨hn, hnext⟩ := h
      cases hread : readBlock w.device n 512 with
      | error refusal =>
        refine ⟨.error (.refused refusal), w, ?_, rfl, rfl, n, refusal, rfl, ?_, hn,
          size_le_of_refused hread, hread⟩
        · simp only [Program.run, hread]
        · simp only [Program.accesses, List.mem_cons_self]
      | ok s =>
        rw [answers_of_ok hread] at hnext
        obtain ⟨x, w', hrun, hdevice, hwrites, hx⟩ := ih s hnext
        refine ⟨x, w', ?_, hdevice, hwrites, ?_⟩
        · simp only [Program.run, hread, hrun]
        · cases x with
          | ok a => exact hx
          | error f =>
            obtain ⟨m, refusal, hf, hm, hrest⟩ := hx
            refine ⟨m, refusal, hf, ?_, hrest⟩
            simp only [Program.accesses, hread, List.mem_cons]
            exact Or.inr hm
    | write n s => exact h.2.1.elim
    | note m =>
      obtain ⟨x, w', hrun, hdevice, hwrites, hx⟩ :=
        ih () (w := ⟨w.device, w.journal.push (.noted m)⟩) h
      refine ⟨x, w', hrun, hdevice, hwrites.trans ?_, ?_⟩
      · simp [World.writes]
      · cases x with
        | ok a => exact hx
        | error f => exact hx

end Program

end InodeVolume

import InodeVolume.Proofs.Volume.Runs

/-!
Histories of machines, and machines that cannot be told apart: what is in memory is the same and
the devices hold the same, so each goes through the histories of the other.
-/
namespace InodeVolume

/-- Operations in order, each with its reply. -/
abbrev History := List (Σ o : Operation, o.Reply)

namespace Machine

open Program LawfulBlockDevice

variable {δ σ : Type} [BlockDevice δ] [Allocator σ]

/-- From one machine to another by the legal operations of a history, with its replies. -/
inductive Follows (m₀ : Machine δ σ) (st₀ : FileStore) :
    History → Machine δ σ → FileStore → Prop
  | refl : Follows m₀ st₀ [] m₀ st₀
  | step {history : History} {m m' : Machine δ σ} {st : FileStore} {o : Operation} {x : o.Reply} :
    Follows m₀ st₀ history m st → st.Legal o → m.Replies o x m' →
      Follows m₀ st₀ (history ++ [⟨o, x⟩]) m' (st.after o x)

variable {m m₀ m' m'' : Machine δ σ} {st st₀ : FileStore} {history : History} {o : Operation}

theorem Follows.reaches (h : Follows m₀ st₀ history m st) : Reaches m₀ st₀ m st := by
  induction h with
  | refl => exact .refl
  | step _ hlegal hx ih => exact ih.step hlegal hx

variable [LawfulBlockDevice δ] {n : Nat} {l : Lender σ n}

structure Alike (m m' : Machine δ σ) : Prop where
  registry_eq : m'.registry = m.registry
  size_eq : size m'.device = size m.device
  image_eq : image m'.device = image m.device

/-- Machines that are alike make the same reply, and are alike after it. -/
theorem Alike.replies (ha : Alike m m') (h : InUse l m st) (hlegal : st.Legal o) {x : o.Reply}
    (hx : m.Replies o x m'') : ∃ m₁, m'.Replies o x m₁ ∧ Alike m'' m₁ := by
  have hrefusal := h.refusal_eq_none hlegal hx
  obtain ⟨a, registered, hc⟩ := h.consistent
  obtain ⟨⟨y, reg⟩, w, w', hrun, hrun', himage, hsize⟩ :=
    (hc.perform_ensures hlegal hrefusal).run_congr (v := ⟨m.device, #[]⟩)
      (w := ⟨m'.device, #[]⟩) (fun k hk => Nat.lt_of_lt_of_le hk h.size_le) ha.image_eq ha.size_eq
  have hy : m.Replies o y ⟨w.device, reg⟩ := ⟨w.journal, hrun⟩
  obtain ⟨rfl, rfl⟩ := hx.unique hy
  refine ⟨⟨w'.device, reg⟩, ⟨w'.journal, ?_⟩, rfl, hsize, himage⟩
  rw [attempt, ha.registry_eq]
  exact hrun'

/-- What one machine goes through, a machine like it goes through as well. -/
theorem Alike.follows (ha : Alike m₀ m') (h : InUse l m₀ st₀)
    (hf : Follows m₀ st₀ history m st) : ∃ m₁, Follows m' st₀ history m₁ st ∧ Alike m m₁ := by
  induction hf with
  | refl => exact ⟨m', .refl, ha⟩
  | step hf hlegal hx ih =>
    obtain ⟨m₁, hm₁, ha₁⟩ := ih
    obtain ⟨m₂, hm₂, ha₂⟩ := ha₁.replies (h.reaches hf.reaches) hlegal hx
    exact ⟨m₂, hm₁.step hlegal hm₂, ha₂⟩

end Machine

end InodeVolume

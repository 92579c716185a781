import InodeVolume.Device.SectorArray
import InodeVolume.Proofs.Allocation.Counting
import InodeVolume.Proofs.Volume.Runs

/-!
A volume keeps to itself. Whatever its callers do within the rules, no sector outside of it is
touched, and no assertion fails but one: a list of sectors may be too long to be kept in memory,
which is found out before anything is done.
-/
namespace InodeVolume

/-- All that callers may do at any time; denying and allowing writes goes by turns. -/
def Operation.Plain : Operation → Prop
  | .denyWrite _ => False
  | .allowWrite _ => False
  | _ => True

/-- The operation asks for no list of sectors that cannot be kept in memory. -/
def Operation.Moderate : Operation → Prop
  | .allocateMany count => count < 2 ^ 61
  | _ => True

theorem FileStore.refusal_of_plain {st : FileStore} {o : Operation} (h : o.Plain) :
    o.Moderate ∧ st.refusal o = none ∨ ¬ o.Moderate ∧ st.refusal o = some .listTooLong := by
  cases o with
  | denyWrite k => exact h.elim
  | allowWrite k => exact h.elim
  | allocateMany count =>
    have hlimit : Store.listLimit = 2 ^ 61 := by decide
    rw [refusal, hlimit]
    by_cases hcount : count < 2 ^ 61
    · exact .inl ⟨hcount, if_pos hcount⟩
    · exact .inr ⟨hcount, if_neg hcount⟩
  | _ => exact .inl ⟨trivial, rfl⟩

namespace Machine

open Program LawfulBlockDevice

variable {δ : Type} [BlockDevice δ] [LawfulBlockDevice δ] {total : UInt32}
  {m : Machine δ FreeMap} {st : FileStore} {o : Operation}

/-- The sectors that an operation reads or writes are among those of the volume. -/
theorem InUse.accesses_lt {σ : Type} [Allocator σ] {n : Nat} {l : Lender σ n} {m : Machine δ σ}
    (h : InUse l m st) (hlegal : st.Legal o) :
    ∀ i ∈ ((o.perform ⟨0⟩).run m.registry).accesses m.device, i < n := by
  obtain ⟨a, registered, hc⟩ := h.consistent
  cases hrefusal : st.refusal o with
  | none =>
    exact (hc.perform_ensures hlegal hrefusal).accesses fun i hi => Nat.lt_of_lt_of_le hi h.size_le
  | some b =>
    rw [hc.perform_refused hlegal hrefusal]
    exact nofun

/-- On a volume, whatever has been done before: an operation replies, unless it asks for a list of
sectors that memory cannot hold, which fails with nothing done; every sector that it touches is one
of the volume's, and so is every sector touched in counting the free ones, which always ends. -/
theorem OnVolume.safe (h : OnVolume total m st) (hlegal : st.Legal o) (hplain : o.Plain) :
    (o.Moderate → ∃ x m', m.Replies o x m') ∧
      (¬ o.Moderate → m.attempt o = (.error (.breach .listTooLong), ⟨m.device, #[]⟩)) ∧
      (∀ i ∈ ((o.perform ⟨0⟩).run m.registry).accesses m.device, i < total.toNat) ∧
      ∃ registered free w, m.registry.table? ⟨0⟩ = some ⟨Volume.mapOf total, registered⟩ ∧
        (Volume.mapOf total).freeCount.run ⟨m.device, #[]⟩ = (.ok free, w) ∧
        w.device = m.device ∧
        ∀ i ∈ (Volume.mapOf total).freeCount.accesses m.device, i < total.toNat := by
  obtain ⟨hm, hinUse⟩ := h.inUse
  obtain ⟨a, registered, hc⟩ := hinUse.consistent
  obtain ⟨rfl, htracks⟩ := hc.lends
  have hlt (i : Nat) (hi : i < total.toNat) : i < size m.device :=
    Nat.lt_of_lt_of_le hi hinUse.size_le
  have hcount := FreeMap.freeCount_ensures (A := (· < total.toNat)) (G := fun _ _ => False)
    (Q := fun _ _ => True) hm htracks (fun _ hi => hi) trivial
  obtain ⟨free, w, hrun, -, hdevice, -⟩ := hcount.run_silent (w := ⟨m.device, #[]⟩) hlt
  refine ⟨fun hmoderate => ?_, fun hmoderate => ?_, hinUse.accesses_lt hlegal, registered, free, w,
    hc.table?_eq, hrun, hdevice, hcount.accesses hlt⟩
  · rcases FileStore.refusal_of_plain hplain with ⟨-, hrefusal⟩ | ⟨hnot, -⟩
    · obtain ⟨x, m', hx, -⟩ := hinUse.attempt_ok hlegal hrefusal
      exact ⟨x, m', hx⟩
    · exact absurd hmoderate hnot
  · rcases FileStore.refusal_of_plain hplain with ⟨hmoderate', -⟩ | ⟨-, hrefusal⟩
    · exact absurd hmoderate' hmoderate
    · exact hinUse.attempt_refused hlegal hrefusal

/-- Writing to the root directory at the last offset that there is, and asking for all sectors of a
small volume and more. -/
theorem safe_root_directory : ∃ (m : Machine SectorArray FreeMap) (st : FileStore) (h : HandleId),
    OnVolume 100 m st ∧
      (∃ x m', m.Replies (.writeAt h (2 ^ 64 - 1) #[1, 2, 3]) x m') ∧
      ∃ x m', m.Replies (.allocateMany (2 ^ 60)) x m' := by
  have hsize : size (SectorArray.filled 100 7) = 100 := Array.size_replicate
  obtain ⟨m, root, h, hm⟩ := exists_onVolume_opened 100
    (d := SectorArray.filled 100 7) (Nat.le_of_eq hsize.symm) (by decide)
  have hf := (FileStore.initial root).opened_setOpened_self h (some ⟨root, 1, false, 0⟩)
  have hwrite := hm.safe (o := .writeAt h (2 ^ 64 - 1) #[1, 2, 3]) ⟨⟨_, hf⟩, by decide⟩ trivial
  have hmany := hm.safe (o := .allocateMany (2 ^ 60)) trivial trivial
  have hmoderate : Operation.Moderate (.allocateMany (2 ^ 60)) := by
    rw [Operation.Moderate]
    decide
  exact ⟨m, _, h, hm, hwrite.1 trivial, hmany.1 hmoderate⟩

/-- Asking for more sectors than a list can hold, instead of being refused, fails an assertion. -/
theorem listTooLong_new_volume : ∃ (m : Machine SectorArray FreeMap) (root : SectorId),
    OnVolume 64 m (.initial root) ∧ m.attempt (.allocateMany 2305843009213693952) =
      (.error (.breach .listTooLong), ⟨m.device, #[]⟩) := by
  have hsize : size (SectorArray.filled 64 165) = 64 := Array.size_replicate
  obtain ⟨m, root, hm⟩ := exists_onVolume 64 (d := SectorArray.filled 64 165)
    (Nat.le_of_eq hsize.symm) (by decide)
  obtain ⟨_, hinUse⟩ := hm.inUse
  exact ⟨m, root, hm, hinUse.attempt_refused (o := .allocateMany 2305843009213693952) trivial rfl⟩

end Machine

end InodeVolume

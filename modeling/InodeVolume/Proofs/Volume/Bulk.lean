import InodeVolume.Allocation.Supply
import InodeVolume.Device.SectorArray
import InodeVolume.Proofs.Volume.FreshVolume
import InodeVolume.Proofs.Volume.Runs
import Mathlib.Data.List.Sort

/-!
Many sectors at once. A volume hands out the lowest free ones, in ascending order, if there are as
many as are asked for; otherwise it is as if nothing had been asked. Over any allocator the request
is one call after the other, up to the first refusal, and then the way back in the same order.
-/
namespace InodeVolume

namespace FreeMap

/-- The numbers below `capacity` that are not used, in ascending order. -/
def missing (capacity : Nat) (used : Finset Nat) : List Nat :=
  (List.range capacity).filter fun n => decide (n ∉ used)

/-- The numbers of the sectors whose bits are clear, in ascending order. -/
def freeNumbers (m : FreeMap) (d : Image) : List Nat :=
  (List.range m.capacity).filter fun n => !m.marks d n

variable {m : FreeMap} {size capacity n : Nat} {d d' : Image} {used : Finset Nat}
  {U : Finset SectorId} {ids : List SectorId}

theorem Records.freeNumbers_eq (h : m.Records d used) (hm : m.Lies size) :
    m.freeNumbers d = missing m.capacity used := by
  refine List.filter_congr fun n hn => ?_
  have hmarks := h.marks_iff (Nat.lt_of_lt_of_le (List.mem_range.1 hn) hm.capacity_le_bits)
  rw [Bool.eq_iff_iff, Bool.not_eq_true', decide_eq_true_iff, ← hmarks, Bool.not_eq_true]

theorem mem_missing : n ∈ missing capacity used ↔ n < capacity ∧ n ∉ used := by
  rw [missing, List.mem_filter, List.mem_range, decide_eq_true_iff]

theorem pairwise_missing (capacity : Nat) (used : Finset Nat) :
    (missing capacity used).Pairwise (· < ·) := List.pairwise_lt_range.filter _

theorem length_missing (h : used ⊆ Finset.range capacity) :
    (missing capacity used).length = capacity - used.card := by
  have hset : (missing capacity used).toFinset = Finset.range capacity \ used := by
    ext n
    rw [List.mem_toFinset, mem_missing, Finset.mem_sdiff, Finset.mem_range]
  have hnodup : (missing capacity used).Nodup := List.nodup_range.filter _
  rw [← List.toFinset_card_of_nodup hnodup, hset, Finset.card_sdiff_of_subset h, Finset.card_range]

/-- The lowest missing number comes first. -/
theorem missing_eq_cons (hn : n < capacity) (hnew : n ∉ used) (hbelow : ∀ k, k < n → k ∈ used) :
    missing capacity used = n :: missing capacity (insert n used) := by
  refine List.Pairwise.eq_of_mem_iff (r := (· < ·)) (pairwise_missing capacity used)
    (List.pairwise_cons.2 ⟨fun k hk => ?_, pairwise_missing capacity _⟩) fun k => ?_
  · rw [mem_missing, Finset.mem_insert, not_or] at hk
    exact Nat.lt_of_le_of_ne (Nat.le_of_not_lt fun hlt => hk.2.2 (hbelow k hlt)) (Ne.symm hk.2.1)
  · rw [List.mem_cons, mem_missing, mem_missing, Finset.mem_insert, not_or]
    constructor
    · rintro ⟨hk, hmem⟩
      exact (Classical.em (k = n)).imp_right fun hne => ⟨hk, hne, hmem⟩
    · rintro (rfl | ⟨hk, -, hmem⟩)
      · exact ⟨hn, hnew⟩
      · exact ⟨hk, hmem⟩

/-- What is handed out comes off the front of what is missing. -/
theorem HandsOut.missing_eq (h : m.HandsOut U ids) (hlt : ∀ id ∈ ids, id.index < m.capacity) :
    missing m.capacity (m.usedNumbers U) =
      ids.map SectorId.index ++ missing m.capacity (m.usedNumbers (U ∪ ids.toFinset)) := by
  induction ids generalizing U with
  | nil => simp
  | cons id rest ih =>
    obtain ⟨⟨hnew, hbelow⟩, hrest⟩ := h
    obtain ⟨hid, hlt⟩ := List.forall_mem_cons.1 hlt
    have hfull (k : Nat) (hk : k < id.index) : k ∈ m.usedNumbers U :=
      mem_usedNumbers.2 (hbelow k hk)
    rw [missing_eq_cons hid (mem_usedNumbers.not.2 hnew) hfull, ← usedNumbers_insert, ih hrest hlt,
      List.toFinset_cons, Finset.union_insert, Finset.insert_union]
    rfl

theorem owned_union {n : Nat} : Owned (U ∪ ids.toFinset) n ↔
    Owned U n ∨ n ∈ ids.map SectorId.index := by
  simp only [Owned, Finset.mem_union, List.mem_toFinset, List.mem_map, or_and_right, exists_or]

/-- What a request for many sectors comes to. -/
def Meets (m : FreeMap) (count : Nat) (d d' : Image) : Except VolumeError (List SectorId) → Prop
  | .ok ids => count ≤ (m.freeNumbers d).length ∧
    ids.map SectorId.index = (m.freeNumbers d).take count ∧
    (∀ n, n < sectorBits * m.blocks →
      (m.marks d' n = true ↔ m.marks d n = true ∨ n ∈ ids.map SectorId.index)) ∧
    ∀ n, ¬ m.InMap n → d' n = d n
  | .error e => (m.freeNumbers d).length < count ∧ e = .noSpace ∧ d' = d

theorem Tracks.length_freeNumbers (h : m.Tracks d U) (hm : m.Fits size) :
    (m.freeNumbers d).length = m.capacity - (m.reserved + U.card) := by
  rw [(h.records hm).freeNumbers_eq hm.lies, length_missing (h.records hm).subset_range,
    h.card_usedNumbers]

theorem allocateMany_meets {count : Nat} (hm : m.Fits size) (h : m.Tracks d U)
    (hcount : count < Store.listLimit) :
    ((Store.allocateMany count).serve m).Ensures (· < size) (fun _ _ => True)
      (fun x d' => x.2 = m ∧ m.Meets count d d' x.1) d := by
  have hfree := h.length_freeNumbers hm
  obtain ⟨room, hroom⟩ := Nat.le.dest (h.card_le hm)
  have htracks : m.Tracks d (∅ ∪ U) := by rwa [Finset.empty_union]
  have hinformed := serve_informed hm
    (Store.allocateMany_secures hcount (Store.lenient_anyStep ∅ d))
    ((Store.allocateMany_provided (K := Set.univ) count).imp fun _ _ _ _ hx => hx)
    (Finset.disjoint_empty_left U) htracks hroom fun _ _ => trivial
  refine ((allocateMany_ensures hm h hcount).and hinformed).mono (fun _ hn => hm.lt_of_inMap hn)
    (fun _ _ hg => hg) ?_
  rintro ⟨e | ids, m'⟩ d' ⟨⟨hm', helsewhere, hpost⟩, K', -, F', hF', -, hobtained, -, hfew⟩
  · have hlt := hfew e rfl
    rw [Finset.card_empty, Nat.zero_add] at hlt
    exact ⟨hm', by omega, hobtained.2.1, hpost⟩
  · obtain ⟨hlength, hands, htracks'⟩ := hpost
    have hsplit : m.freeNumbers d = ids.map SectorId.index ++
        missing m.capacity (m.usedNumbers (U ∪ ids.toFinset)) := by
      rw [(h.records hm).freeNumbers_eq hm.lies]
      refine hands.missing_eq fun id hid => htracks'.index_lt ?_
      exact Finset.mem_union_right U (List.mem_toFinset.2 hid)
    have hcount' : (ids.map SectorId.index).length = count := by rw [List.length_map, hlength]
    refine ⟨hm', ?_, ?_, fun n hn => ?_, helsewhere⟩
    · rw [hsplit, List.length_append, hcount']
      exact Nat.le_add_right _ _
    · rw [hsplit, List.take_left' hcount']
    · rw [htracks'.marks_iff n hn, h.marks_iff n hn, or_assoc, owned_union]

end FreeMap

namespace Machine

open Program LawfulBlockDevice

variable {δ : Type} [BlockDevice δ] [LawfulBlockDevice δ] {total : UInt32}
  {m : Machine δ FreeMap} {st : FileStore} {count : Nat}

/-- The sectors that a volume tells to be free are those whose bits are clear. -/
theorem OnVolume.freeCount_eq (h : OnVolume total m st) :
    ∃ w, (Volume.mapOf total).freeCount.run ⟨m.device, #[]⟩ =
      (.ok ((Volume.mapOf total).freeNumbers (image m.device)).length, w) ∧
        w.device = m.device := by
  obtain ⟨hm, hinUse⟩ := h.inUse
  obtain ⟨a, registered, hc⟩ := hinUse.consistent
  obtain ⟨-, htracks⟩ := hc.lends
  have hcount := FreeMap.freeCount_ensures (A := (· < total.toNat)) (G := fun _ _ => False)
    (Q := fun x _ => x = _) hm htracks (fun _ hn => hn) rfl
  obtain ⟨free, w, hrun, hfree, hdevice, -⟩ :=
    hcount.run_silent (w := ⟨m.device, #[]⟩) fun k hk => Nat.lt_of_lt_of_le hk hinUse.size_le
  rw [← htracks.length_freeNumbers hm] at hfree
  exact ⟨w, hfree ▸ hrun, hdevice⟩

/-- A volume meets every request for many sectors that memory can hold. -/
theorem OnVolume.allocateMany_meets (h : OnVolume total m st) (hcount : count < Store.listLimit) :
    ∃ x m', m.Replies (.allocateMany count) x m' ∧ m'.registry = m.registry ∧
      size m'.device = size m.device ∧
      (Volume.mapOf total).Meets count (image m.device) (image m'.device) x := by
  obtain ⟨hm, hinUse⟩ := h.inUse
  obtain ⟨a, registered, hc⟩ := hinUse.consistent
  obtain ⟨rfl, htracks⟩ := hc.lends
  have hserved : (((Operation.allocateMany count).perform ⟨0⟩).run m.registry).Ensures
      (· < total.toNat) (fun _ _ => True) (fun x d' => x.2 = m.registry ∧
        (Volume.mapOf total).Meets count (image m.device) d' x.1) (image m.device) := by
    simp only [Operation.perform, RegistryM.served_run hc.table?_eq, ensures_bind]
    refine (FreeMap.allocateMany_meets hm htracks hcount).imp ?_
    rintro ⟨x, a⟩ d' ⟨rfl, hmeets⟩
    exact ⟨Registry.setTable_self hc.table?_eq, hmeets⟩
  obtain ⟨⟨x, reg⟩, w, -, hrun, ⟨hreg, hmeets⟩, hsize, -⟩ :=
    hserved.run (w := ⟨m.device, #[]⟩) fun k hk => Nat.lt_of_lt_of_le hk hinUse.size_le
  exact ⟨x, ⟨w.device, reg⟩, ⟨w.journal, hrun⟩, hreg, hsize, hmeets⟩

end Machine

section Requests

open Program LawfulBlockDevice Store

variable {δ σ : Type} [BlockDevice δ] [Allocator σ] {a a' : σ} {w w' : World δ} {count : Nat}
  {x : Except VolumeError (List SectorId)} {f : Fault}

theorem allocateMany_run_iff (hcount : count < listLimit) :
    ((allocateMany count).serve a).run w = (.ok (x, a'), w') ↔
      (∃ ids, ids.length = count ∧ x = .ok ids ∧ (granting ids).Takes a w a' w') ∨
      ∃ ids, ids.length < count ∧ x = .error .noSpace ∧
        (granting ids ++ refusing ids count ++ releasing ids).Takes a w a' w' := by
  constructor
  · intro hrun
    obtain ⟨t, hends, htakes⟩ := Dialogue.exists_takes hrun
    obtain ⟨-, hgathered⟩ := ends_allocateMany.1 hends
    cases x with
    | ok ids =>
      obtain ⟨new, hlength, hids, rfl⟩ := hgathered
      exact .inl ⟨new, hlength, congrArg Except.ok hids, htakes⟩
    | error e =>
      obtain ⟨rfl, new, hlength, ht⟩ := hgathered
      exact .inr ⟨new, hlength, rfl, ht ▸ htakes⟩
  · rintro (⟨ids, hlength, rfl, htakes⟩ | ⟨ids, hlength, rfl, htakes⟩)
    · exact htakes.run (ends_allocateMany.2 ⟨hcount, ids, hlength, rfl, rfl⟩)
    · exact htakes.run (ends_allocateMany.2 ⟨hcount, rfl, ids, hlength, rfl⟩)

theorem allocateMany_run_error (hcount : count < listLimit)
    (hrun : ((allocateMany count).serve a).run w = (.error f, w')) :
    (∃ ids a₁ w₁, ids.length < count ∧ (granting ids).Takes a w a₁ w₁ ∧
      (Allocator.allocate a₁).run w₁ = (.error f, w')) ∨
    ∃ ids back id rest a₁ w₁, ids.length < count ∧ ids = back ++ id :: rest ∧
      (granting ids ++ refusing ids count ++ releasing back).Takes a w a₁ w₁ ∧
      (Allocator.release a₁ id).run w₁ = (.error f, w') := by
  rw [allocateMany, require, if_pos hcount] at hrun
  exact gather_run_error hrun

theorem allocateMany_run_tooLong (hcount : ¬ count < listLimit) :
    ((allocateMany count).serve a).run w = (.error (.breach .listTooLong), w) := by
  rw [allocateMany, require, if_neg hcount]
  rfl

/-- A request for `count` sectors. A volume that tells at least as many to be free hands out the
lowest of them, in ascending order, and marks just those; one that tells fewer to be free refuses,
and every byte is as before. Any allocator is asked until there are enough, and then for nothing
else, or until it refuses, and then it gets back what it has handed out, in the same order. Only a
call to the allocator can fail in between, if memory can hold the list, which is found out before
anything is done. -/
theorem allocateMany_exact (count : Nat) :
    (∀ {δ : Type} [BlockDevice δ] [LawfulBlockDevice δ] {total : UInt32} {m : Machine δ FreeMap}
      {st : FileStore}, Machine.OnVolume total m st → count < 2 ^ 61 →
      ∃ (free : Nat) (w : World δ) (m' : Machine δ FreeMap),
        (Volume.mapOf total).freeCount.run ⟨m.device, #[]⟩ = (.ok free, w) ∧
        free = ((Volume.mapOf total).freeNumbers (image m.device)).length ∧
        m'.registry = m.registry ∧ size m'.device = size m.device ∧
        (count ≤ free → ∃ ids, m.Replies (.allocateMany count) (.ok ids) m' ∧
          ids.map SectorId.index =
            ((Volume.mapOf total).freeNumbers (image m.device)).take count ∧
          (∀ n, n < sectorBits * FreeMap.blocksFor total.toNat →
            ((Volume.mapOf total).marks (image m'.device) n = true ↔
              (Volume.mapOf total).marks (image m.device) n = true ∨
                n ∈ ids.map SectorId.index)) ∧
          ∀ n, ¬ (Volume.mapOf total).InMap n → image m'.device n = image m.device n) ∧
        (free < count → m.Replies (.allocateMany count) (.error .noSpace) m' ∧
          image m'.device = image m.device)) ∧
    (∀ {δ σ : Type} [BlockDevice δ] [Allocator σ] {a : σ} {w w' : World δ},
      (2 ^ 61 ≤ count →
        ((allocateMany count).serve a).run w = (.error (.breach .listTooLong), w)) ∧
      (count < 2 ^ 61 →
        (∀ x a', ((allocateMany count).serve a).run w = (.ok (x, a'), w') ↔
          (∃ ids, ids.length = count ∧ x = .ok ids ∧ (granting ids).Takes a w a' w') ∨
          ∃ ids, ids.length < count ∧ x = .error .noSpace ∧
            (granting ids ++ refusing ids count ++ releasing ids).Takes a w a' w') ∧
        ∀ f, ((allocateMany count).serve a).run w = (.error f, w') →
          (∃ ids a₁ w₁, ids.length < count ∧ (granting ids).Takes a w a₁ w₁ ∧
            (Allocator.allocate a₁).run w₁ = (.error f, w')) ∨
          ∃ ids back id rest a₁ w₁, ids.length < count ∧ ids = back ++ id :: rest ∧
            (granting ids ++ refusing ids count ++ releasing back).Takes a w a₁ w₁ ∧
            (Allocator.release a₁ id).run w₁ = (.error f, w'))) := by
  have hlimit : listLimit = 2 ^ 61 := by decide
  refine ⟨?_, fun hcount => ?_, fun hcount => ⟨fun x a' => ?_, fun f => ?_⟩⟩
  · intro _ _ _ total m st h hcount
    obtain ⟨w, hfree, -⟩ := h.freeCount_eq
    obtain ⟨x, m', hx, hreg, hsize, hmeets⟩ := h.allocateMany_meets (hlimit ▸ hcount)
    refine ⟨_, w, m', hfree, rfl, hreg, hsize, fun hle => ?_, fun hlt => ?_⟩
    · cases x with
      | ok ids => exact ⟨ids, hx, hmeets.2⟩
      | error e => exact absurd hle (Nat.not_le.2 hmeets.1)
    · cases x with
      | ok ids => exact absurd hmeets.1 (Nat.not_le.2 hlt)
      | error e =>
        obtain ⟨-, rfl, himage⟩ := hmeets
        exact ⟨hx, himage⟩
  · exact allocateMany_run_tooLong (hlimit ▸ Nat.not_lt.2 hcount)
  · exact allocateMany_run_iff (hlimit ▸ hcount)
  · exact allocateMany_run_error (hlimit ▸ hcount)

/-- A new volume of 64 sectors hands out three of the 60 that are left and refuses 61; and an
allocator that has but two sectors gets them back in the order in which it handed them out. -/
theorem allocateMany_exact_new_volume :
    (∃ (m m₁ m₂ : Machine SectorArray FreeMap) (root : SectorId) (ids : List SectorId),
      Machine.OnVolume 64 m (.initial root) ∧ m.Replies (.allocateMany 3) (.ok ids) m₁ ∧
        ids.map SectorId.index = [4, 5, 6] ∧ m.Replies (.allocateMany 61) (.error .noSpace) m₂ ∧
        image m₂.device = image m.device) ∧
    ((allocateMany 3).serve (Supply.scripted [some ⟨7, by decide⟩, some ⟨8, by decide⟩] [])).run
        ⟨SectorArray.filled 10 7, #[]⟩ =
      (.ok (.error .noSpace, .scripted [] [⟨8, by decide⟩, ⟨7, by decide⟩]),
        ⟨SectorArray.filled 10 7, #[.noted (.outOfSpace 2 3)]⟩) := by
  refine ⟨?_, (((allocateMany_exact 3).2.2 (by decide)).1 _ _).2
    (.inr ⟨[⟨7, by decide⟩, ⟨8, by decide⟩], by decide, rfl, ?_⟩)⟩
  · have hsize : size (SectorArray.filled 64 165) = 64 := Array.size_replicate
    have hsize' : (64 : UInt32).toNat ≤ size (SectorArray.filled 64 165) := hsize.symm.le
    have hspace : FreeMap.blocksFor (64 : UInt32).toNat + 3 ≤ (64 : UInt32).toNat := by decide
    obtain ⟨_, w, -, hformat, ⟨root, hroot, rfl, -, hfresh⟩, -⟩ :=
      (Volume.format_fresh hspace).run (w := ⟨SectorArray.filled 64 165, #[]⟩)
        fun n hn => Nat.lt_of_lt_of_le hn (by rw [hsize]; decide)
    have hm : Machine.OnVolume 64 ⟨w.device, .over (Volume.mapOf 64)⟩ (.initial root) :=
      ⟨_, _, w, hsize', hformat, .refl⟩
    have hnumbers : (Volume.mapOf 64).freeNumbers (image w.device) =
        FreeMap.missing 64 (Finset.range 4) :=
      hfresh.map.freeNumbers_eq (Volume.lies_mapOf (Nat.le_refl _))
    have hfew : 3 < 2 ^ 61 := by decide
    have htoo : 61 < 2 ^ 61 := by decide
    obtain ⟨_, _, m₁, -, rfl, -, -, hthree, -⟩ := (allocateMany_exact 3).1 hm hfew
    obtain ⟨_, _, m₂, -, rfl, -, -, -, hmany⟩ := (allocateMany_exact 61).1 hm htoo
    rw [hnumbers] at hthree hmany
    obtain ⟨ids, hids, htake, -⟩ := hthree (by decide)
    obtain ⟨hrefused, himage⟩ := hmany (by decide)
    exact ⟨_, m₁, m₂, root, ids, hm, hids, htake.trans (by decide), hrefused, himage⟩
  · exact ⟨_, _, rfl, _, _, rfl, _, _, rfl, _, rfl, _, _, rfl, _, _, rfl, rfl, rfl⟩

/-- More sectors than a list can hold are not refused, though there are too few of them. -/
theorem allocateMany_not_refused : ∃ (m : Machine SectorArray FreeMap) (root : SectorId)
    (free : Nat) (w : World SectorArray), Machine.OnVolume 64 m (.initial root) ∧
      (Volume.mapOf 64).freeCount.run ⟨m.device, #[]⟩ = (.ok free, w) ∧
      free < 2305843009213693952 ∧
      ∀ m', ¬ m.Replies (.allocateMany 2305843009213693952) (.error .noSpace) m' := by
  have hsize : size (SectorArray.filled 64 165) = 64 := Array.size_replicate
  obtain ⟨m, root, hm⟩ := Machine.exists_onVolume 64 (d := SectorArray.filled 64 165)
    (Nat.le_of_eq hsize.symm) (by decide)
  obtain ⟨w, hfree, -⟩ := hm.freeCount_eq
  obtain ⟨_, hinUse⟩ := hm.inUse
  have hle : ((Volume.mapOf 64).freeNumbers (image m.device)).length ≤ 64 := by
    refine (List.length_filter_le _ _).trans_eq ?_
    rw [List.length_range, Volume.capacity_mapOf]
    rfl
  refine ⟨m, root, _, w, hm, hfree, Nat.lt_of_le_of_lt hle (by decide), ?_⟩
  rintro m' ⟨journal, hx⟩
  rw [hinUse.attempt_refused (o := .allocateMany 2305843009213693952) (b := .listTooLong) trivial
    rfl] at hx
  cases hx

end Requests

end InodeVolume

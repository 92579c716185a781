import InodeVolume.Proofs.Allocation.Counting
import InodeVolume.Proofs.Allocation.Restoration

/-!
The free map refines a finite set of numbers. A set answers an allocation by its lowest missing
number below a capacity, a release by taking the number out, and a count by how many numbers are
missing. A map that has been reset answers every sequence of queries as the set of the reserved
numbers does, and never holds other bits than those of the set.
-/
namespace InodeVolume

namespace FreeMap

/-- What a free map is asked. -/
inductive Query where
  | allocate
  | release (id : SectorId)
  | count
  deriving DecidableEq

inductive Answer where
  | sector (found : Option Nat)
  | released
  | free (count : Nat)
  deriving DecidableEq

def ask (m : FreeMap) : Query → Program Disk Answer
  | .allocate => do
    let found ← m.allocate
    return .sector (found.map SectorId.index)
  | .release id => do
    m.release id
    return .released
  | .count => do
    let count ← m.freeCount
    return .free count

/-- The answers to a sequence of queries. One that ends with a fault leaves the device to the
next. -/
def askAll {δ : Type} [BlockDevice δ] (m : FreeMap) :
    List Query → World δ → List (Except Fault Answer) × World δ
  | [], w => ([], w)
  | q :: rest, w =>
    let (answer, w₁) := (m.ask q).run w
    let (answers, w₂) := askAll m rest w₁
    (answer :: answers, w₂)

/-- The lowest number below `capacity` that is not used. -/
def lowestFree (capacity : Nat) (used : Finset Nat) : Option Nat :=
  (List.range capacity).find? fun n => decide (n ∉ used)

/-- Why a number that is not used is not released. -/
def refusal (capacity : Nat) (id : SectorId) : Breach :=
  if capacity ≤ id.index then .releaseOutsideDevice id else .releasedTwice id

/-- The answer of a set, and the set afterwards. -/
def respond (capacity : Nat) (used : Finset Nat) : Query → Except Fault Answer × Finset Nat
  | .allocate =>
    match lowestFree capacity used with
    | none => (.ok (.sector none), used)
    | some n => (.ok (.sector (some n)), insert n used)
  | .release id =>
    if id.index ∈ used then (.ok .released, used.erase id.index)
    else (.error (.breach (refusal capacity id)), used)
  | .count => (.ok (.free (capacity - used.card)), used)

def respondAll (capacity : Nat) :
    List Query → Finset Nat → List (Except Fault Answer) × Finset Nat
  | [], used => ([], used)
  | q :: rest, used =>
    let (answer, used₁) := respond capacity used q
    let (answers, used₂) := respondAll capacity rest used₁
    (answer :: answers, used₂)

section Sets

variable {capacity n : Nat} {used : Finset Nat}

theorem lowestFree_eq_none_iff :
    lowestFree capacity used = none ↔ ∀ n, n < capacity → n ∈ used := by
  simp [lowestFree]

theorem lowestFree_eq_some_iff : lowestFree capacity used = some n ↔
    n < capacity ∧ n ∉ used ∧ ∀ k, k < n → k ∈ used := by
  rw [lowestFree, List.find?_range_eq_some]
  simp only [decide_eq_true_eq, Bool.not_eq_true', decide_eq_false_iff_not, not_not,
    List.mem_range]
  constructor
  · rintro ⟨hn, hlt, hbelow⟩
    exact ⟨hlt, hn, hbelow⟩
  · rintro ⟨hlt, hn, hbelow⟩
    exact ⟨hn, hlt, hbelow⟩

/-- A number that no sector has is never released. -/
theorem zero_mem_respond (h : 0 ∈ used) (q : Query) : 0 ∈ (respond capacity used q).2 := by
  cases q with
  | allocate =>
    rw [respond]
    split
    · exact h
    · exact Finset.mem_insert_of_mem h
  | release id =>
    rw [respond]
    split
    · exact Finset.mem_erase.2 ⟨Nat.ne_of_lt id.index_pos, h⟩
    · exact h
  | count => exact h

end Sets

section Runs

open Program LawfulBlockDevice

variable {δ : Type} [BlockDevice δ] [LawfulBlockDevice δ] {m : FreeMap} {w : World δ}
  {used : Finset Nat} {limit : Nat}

/-- How a run ends that touches the map alone. -/
theorem run_inMap {α : Type} {p : Program Disk α} {G : Image → Image → Prop}
    {Q : α → Image → Prop} (hm : m.Lies (size w.device))
    (h : p.Ensures m.InMap G Q (image w.device)) :
    ∃ a w', p.run w = (.ok a, w') ∧ Q a (image w'.device) ∧
      SameElsewhere m w.device w'.device := by
  obtain ⟨a, w', -, hrun, ⟨hpost, hsame⟩, hsize, -⟩ := h.frame.run fun _ hn => hm.lt_of_inMap hn
  exact ⟨a, w', hrun, hpost, hsize, hsame⟩

/-- The map answers a query as told, and records the numbers told afterwards. -/
def Responds (m : FreeMap) (q : Query) (w : World δ)
    (response : Except Fault Answer × Finset Nat) : Prop :=
  ∃ w', (m.ask q).run w = (response.1, w') ∧ m.Records (image w'.device) response.2 ∧
    SameElsewhere m w.device w'.device

theorem responds_allocate (hm : m.Lies (size w.device)) (h : m.Records (image w.device) used)
    (hzero : 0 ∈ used) : m.Responds .allocate w (respond m.capacity used .allocate) := by
  obtain ⟨found, w', hrun, hpost, hsame⟩ := run_inMap hm (allocate_records hm h hzero)
  have hask : (m.ask .allocate).run w = (.ok (.sector (found.map SectorId.index)), w') := by
    rw [ask, bind_eq, run_bind, hrun]
    rfl
  cases found with
  | none =>
    obtain ⟨himage, hfull⟩ := hpost
    rw [respond, lowestFree_eq_none_iff.2 hfull]
    exact ⟨w', hask, himage ▸ h, hsame⟩
  | some id =>
    obtain ⟨hlt, hnew, hbelow, hrecords⟩ := hpost
    rw [respond, lowestFree_eq_some_iff.2 ⟨hlt, hnew, hbelow⟩]
    exact ⟨w', hask, hrecords, hsame⟩

/-- A release that the map refuses writes nothing. -/
theorem release_refused (hm : m.Lies (size w.device)) (h : m.Records (image w.device) used)
    {id : SectorId} (hid : id.index ∉ used) :
    (m.release id).run w = (.error (.breach (refusal m.capacity id)),
      ⟨w.device, w.journal.push (.noted (.released id))⟩) := by
  by_cases hlt : id.index < m.capacity
  · have hi := hm.block_lt hlt
    obtain ⟨place, hplace, hindex⟩ := hm.block_eq hi
    have hread : place.index < size w.device :=
      hm.lt_of_inMap (hindex ▸ inMap_start_add hi)
    have hclear : (decode (image w.device place.index) : BitmapBlock).isUsed
        (id.index % sectorBits) (bit_lt _) = false := by
      rw [← Bool.not_eq_true]
      intro hused
      exact hid (h.mem_of_isUsed hm rfl hlt (hindex ▸ hused))
    simp [release, refusal, Disk.note, request, require, hlt, block, hplace, getOrBreach,
      Disk.load, Disk.readSector, run, readBlock_eq hread, hclear, breach]
  · simp [release, refusal, Disk.note, request, require, hlt, run, breach, Nat.not_lt.1 hlt]

theorem responds_release (hm : m.Lies (size w.device)) (h : m.Records (image w.device) used)
    (id : SectorId) : m.Responds (.release id) w (respond m.capacity used (.release id)) := by
  by_cases hid : id.index ∈ used
  · obtain ⟨_, w', hrun, hpost, hsame⟩ := run_inMap hm (release_records hm h hid)
    rw [respond, if_pos hid]
    refine ⟨w', ?_, hpost, hsame⟩
    rw [ask, bind_eq, run_bind, hrun]
    rfl
  · rw [respond, if_neg hid]
    refine ⟨⟨w.device, w.journal.push (.noted (.released id))⟩, ?_, h, .refl m _⟩
    rw [ask, bind_eq, run_bind, release_refused hm h hid]

theorem responds_count (hm : m.Lies (size w.device)) (h : m.Records (image w.device) used) :
    m.Responds .count w (respond m.capacity used .count) := by
  obtain ⟨count, w', hrun, ⟨hcount, himage⟩, hsame⟩ := run_inMap hm
    (freeCount_records (G := fun _ _ => True)
      (Q := fun n d => n = m.capacity - used.card ∧ d = image w.device) hm h (fun _ => id)
      ⟨rfl, rfl⟩)
  rw [respond]
  refine ⟨w', ?_, himage ▸ h, hsame⟩
  rw [ask, bind_eq, run_bind, hrun, hcount]
  rfl

/-- One query is answered as by the set. -/
theorem responds (hm : m.Lies (size w.device)) (h : m.Records (image w.device) used)
    (hzero : 0 ∈ used) (q : Query) : m.Responds q w (respond m.capacity used q) := by
  cases q with
  | allocate => exact responds_allocate hm h hzero
  | release id => exact responds_release hm h id
  | count => exact responds_count hm h

/-- All queries are answered as by the set. -/
theorem askAll_records (queries : List Query) (hm : m.Lies (size w.device))
    (h : m.Records (image w.device) used) (hzero : 0 ∈ used) :
    ∃ w', m.askAll queries w = ((respondAll m.capacity queries used).1, w') ∧
      m.Records (image w'.device) (respondAll m.capacity queries used).2 ∧
      0 ∈ (respondAll m.capacity queries used).2 ∧ SameElsewhere m w.device w'.device := by
  induction queries generalizing w used with
  | nil => exact ⟨w, rfl, h, hzero, .refl m _⟩
  | cons q rest ih =>
    obtain ⟨w₁, hrun, hrecords, hsame⟩ := responds hm h hzero q
    obtain ⟨w₂, hrest, hrecords₂, hzero₂, hsame₂⟩ :=
      ih (hsame.size_eq ▸ hm) hrecords (zero_mem_respond hzero q)
    refine ⟨w₂, ?_, hrecords₂, hzero₂, hsame.trans hsame₂⟩
    simp only [askAll, respondAll, hrun, hrest]

/-- A map that has been reset refines the set of the reserved numbers: whatever it is asked from
then on, it answers as the set does, records the set and leaves all other sectors as they were
before the reset, and a query that leaves the set as it is changes no sector at all. -/
theorem askAll_reset (hm : m.Lies (size w.device)) (hpos : 0 < limit)
    (hlimit : limit ≤ m.capacity) :
    ∃ w₀, (m.reset limit).run w = (.ok (), w₀) ∧ ∀ queries, ∃ answers used w₁,
      respondAll m.capacity queries (Finset.range limit) = (answers, used) ∧
      m.askAll queries w₀ = (answers, w₁) ∧ m.Records (image w₁.device) used ∧
      SameElsewhere m w.device w₁.device ∧
      ∀ q answer, respond m.capacity used q = (answer, used) →
        ∃ w₂, (m.ask q).run w₁ = (answer, w₂) ∧ image w₂.device = image w₁.device := by
  obtain ⟨_, w₀, hreset, hrecords, hsame⟩ := run_inMap hm (reset_records hm hlimit)
  have hzero : 0 ∈ Finset.range limit := Finset.mem_range.2 hpos
  refine ⟨w₀, hreset, fun queries => ?_⟩
  obtain ⟨w₁, hrun, hrecords₁, hzero₁, hsame₁⟩ :=
    askAll_records queries (hsame.size_eq ▸ hm) hrecords hzero
  refine ⟨_, _, w₁, rfl, hrun, hrecords₁, hsame.trans hsame₁, fun q answer hq => ?_⟩
  have hm₁ : m.Lies (size w₁.device) := by rwa [hsame₁.size_eq, hsame.size_eq]
  obtain ⟨w₂, hask, hrecords₂, hsame₂⟩ := responds hm₁ hrecords₁ hzero₁ q
  rw [hq] at hask hrecords₂
  exact ⟨w₂, hask, hrecords₁.image_eq hrecords₂ hsame₂.image_eq⟩

/-- A map of two sectors that accounts for six sectors, of which the first three are reserved. -/
theorem askAll_reset_six : (⟨2, 2, 6⟩ : FreeMap).Lies 5 ∧
    ∃ w₀, ((⟨2, 2, 6⟩ : FreeMap).reset 3).run ⟨SectorArray.filled 5 0xff, #[]⟩ = (.ok (), w₀) ∧
      ∃ w₁, (⟨2, 2, 6⟩ : FreeMap).askAll [.allocate, .release ⟨1, by decide⟩, .count,
          .release ⟨1, by decide⟩, .allocate, .allocate, .allocate, .allocate, .count] w₀ =
        ([.ok (.sector (some 3)), .ok .released, .ok (.free 3),
          .error (.breach (.releasedTwice ⟨1, by decide⟩)), .ok (.sector (some 1)),
          .ok (.sector (some 4)), .ok (.sector (some 5)), .ok (.sector none), .ok (.free 0)], w₁) ∧
        image w₁.device 4 = Vector.replicate 512 0xff := by
  have hm : (⟨2, 2, 6⟩ : FreeMap).Lies 5 := by
    constructor <;> decide
  have hsize : size (SectorArray.filled 5 0xff) = 5 := rfl
  obtain ⟨w₀, hreset, hall⟩ := askAll_reset (w := ⟨SectorArray.filled 5 0xff, #[]⟩) hm
    (show 0 < 3 by decide) (by decide)
  refine ⟨hm, w₀, hreset, ?_⟩
  obtain ⟨answers, used, w₁, hrespond, hask, -, hsame, -⟩ := hall [.allocate,
    .release ⟨1, by decide⟩, .count, .release ⟨1, by decide⟩, .allocate, .allocate, .allocate,
    .allocate, .count]
  have hanswers : answers = _ := (congrArg Prod.fst hrespond).symm
  refine ⟨w₁, ?_, ?_⟩
  · rw [hask, hanswers]
    exact congrArg (·, w₁) (by decide)
  · rw [hsame.image_eq 4 (by simp [InMap, reserved])]
    exact SectorArray.image_filled (by decide)

end Runs

end FreeMap

end InodeVolume

import InodeVolume.Sector.Layout

/-!
One sector of the free map: 4096 bits in 64 groups, a set bit for each sector in use. Marking and
unmarking change the one bit they name, and `firstFree?` finds the lowest clear bit if there is
one.
-/
namespace InodeVolume

structure BitmapBlock where
  groups : Vector UInt64 64
  deriving DecidableEq

instance : SectorLayout BitmapBlock where
  encode b := Sector.ofGroups b.groups
  decode s := ⟨s.groups⟩

namespace BitmapBlock

theorem decode_encode (b : BitmapBlock) : (decode (encode b) : BitmapBlock) = b := by
  simp [encode, decode]

theorem encode_decode (s : Sector) : encode (decode s : BitmapBlock) = s := by
  simp [encode, decode]

/-- The group in which only bit `k` is set. -/
def single (k : Nat) : UInt64 := 1 <<< UInt64.ofNat k

def fullGroup : UInt64 := 0xffffffffffffffff

def testBit (group : UInt64) (k : Nat) : Bool := (group >>> UInt64.ofNat k) &&& 1 != 0

theorem testBit_eq_getLsbD (group : UInt64) {k : Nat} (h : k < 64) :
    testBit group k = group.toBitVec.getLsbD k := by
  have hk : k % 2 ^ 64 % 64 = k := by omega
  have he : ((group >>> UInt64.ofNat k) &&& 1).toNat = group.toNat >>> k % 2 := by
    rw [UInt64.toNat_and, UInt64.toNat_shiftRight, UInt64.toNat_ofNat', hk]
    exact Nat.and_one_is_mod _
  have hb : group.toBitVec.getLsbD k = decide (group.toNat >>> k % 2 = 1) := by
    rw [BitVec.getLsbD, UInt64.toNat_toBitVec, Nat.testBit_eq_decide_div_mod_eq,
      Nat.shiftRight_eq_div_pow]
  rw [hb]
  unfold testBit
  by_cases hz : (group >>> UInt64.ofNat k) &&& 1 = 0
  · have hzero : group.toNat >>> k % 2 = 0 := by
      rw [← he, hz]
      rfl
    simp [hz, hzero]
  · have hne : group.toNat >>> k % 2 ≠ 0 := by
      rw [← he]
      intro hzero
      exact hz (UInt64.toNat_inj.1 hzero)
    have hone : group.toNat >>> k % 2 = 1 := by omega
    simp [hz, hone]

theorem getLsbD_single {k j : Nat} (h : k < 64) :
    (single k).toBitVec.getLsbD j = decide (k = j) := by
  have hk : k % 2 ^ 64 % 64 = k := by omega
  have hp : 2 ^ k < 2 ^ 64 := Nat.pow_lt_pow_right (by decide) h
  have he : (1 : UInt64).toNat = 1 := rfl
  rw [BitVec.getLsbD, UInt64.toNat_toBitVec, single, UInt64.toNat_shiftLeft, UInt64.toNat_ofNat',
    hk, he, Nat.one_shiftLeft, Nat.mod_eq_of_lt hp, Nat.testBit_two_pow]

theorem testBit_or_single (group : UInt64) {k j : Nat} (h : k < 64) (hj : j < 64) :
    testBit (group ||| single k) j = (testBit group j || decide (k = j)) := by
  rw [testBit_eq_getLsbD _ hj, testBit_eq_getLsbD _ hj, UInt64.toBitVec_or, BitVec.getLsbD_or,
    getLsbD_single h]

theorem testBit_and_not_single (group : UInt64) {k j : Nat} (h : k < 64) (hj : j < 64) :
    testBit (group &&& ~~~ single k) j = (testBit group j && decide (k ≠ j)) := by
  rw [testBit_eq_getLsbD _ hj, testBit_eq_getLsbD _ hj, UInt64.toBitVec_and, BitVec.getLsbD_and,
    UInt64.toBitVec_not, BitVec.getLsbD_not, getLsbD_single h]
  simp [hj]

theorem testBit_fullGroup {k : Nat} (h : k < 64) : testBit fullGroup k = true := by
  have hf : fullGroup.toBitVec = BitVec.allOnes 64 := rfl
  rw [testBit_eq_getLsbD _ h, hf, BitVec.getLsbD_allOnes]
  simp [h]

theorem eq_of_testBit {a b : UInt64} (h : ∀ k, k < 64 → testBit a k = testBit b k) : a = b := by
  apply UInt64.toBitVec_inj.1
  apply BitVec.eq_of_getLsbD_eq
  intro k hk
  rw [← testBit_eq_getLsbD a hk, ← testBit_eq_getLsbD b hk]
  exact h k hk

def isUsed (b : BitmapBlock) (bit : Nat) (h : bit < 4096) : Bool :=
  testBit b.groups[bit / 64] (bit % 64)

/-- The bits decide what a sector of the map is. -/
theorem eq_of_isUsed {a b : BitmapBlock}
    (h : ∀ (bit : Nat) (hbit : bit < 4096), a.isUsed bit hbit = b.isUsed bit hbit) : a = b := by
  have hgroups : a.groups = b.groups := by
    apply Vector.ext
    intro i hi
    apply eq_of_testBit
    intro k hk
    have hdiv : (64 * i + k) / 64 = i := by omega
    have hmod : (64 * i + k) % 64 = k := by omega
    have hbit := h (64 * i + k) (by omega)
    simpa only [isUsed, hdiv, hmod] using hbit
  cases a
  cases b
  exact congrArg BitmapBlock.mk hgroups

def empty : BitmapBlock := ⟨Vector.replicate 64 0⟩

@[simp] theorem isUsed_empty (bit : Nat) (h : bit < 4096) : empty.isUsed bit h = false := by
  simp [isUsed, empty, testBit]

def mark (b : BitmapBlock) (bit : Nat) (h : bit < 4096) : BitmapBlock :=
  let group := b.groups[bit / 64]
  ⟨b.groups.set (bit / 64) (group ||| single (bit % 64))⟩

def unmark (b : BitmapBlock) (bit : Nat) (h : bit < 4096) : BitmapBlock :=
  let group := b.groups[bit / 64]
  ⟨b.groups.set (bit / 64) (group &&& ~~~ single (bit % 64))⟩

theorem isUsed_mark (b : BitmapBlock) {bit j : Nat} (h : bit < 4096) (hj : j < 4096) :
    (b.mark bit h).isUsed j hj = (b.isUsed j hj || decide (bit = j)) := by
  have hm : bit % 64 < 64 := Nat.mod_lt _ (by decide)
  have hmj : j % 64 < 64 := Nat.mod_lt _ (by decide)
  by_cases hg : bit / 64 = j / 64
  · have hd : decide (bit % 64 = j % 64) = decide (bit = j) := decide_eq_decide.2 (by omega)
    simp only [isUsed, mark, hg, Vector.getElem_set_self]
    rw [testBit_or_single _ hm hmj, hd]
  · have hd : decide (bit = j) = false := decide_eq_false (by omega)
    simp [isUsed, mark, Vector.getElem_set_ne _ _ hg, hd]

theorem isUsed_unmark (b : BitmapBlock) {bit j : Nat} (h : bit < 4096) (hj : j < 4096) :
    (b.unmark bit h).isUsed j hj = (b.isUsed j hj && decide (bit ≠ j)) := by
  have hm : bit % 64 < 64 := Nat.mod_lt _ (by decide)
  have hmj : j % 64 < 64 := Nat.mod_lt _ (by decide)
  by_cases hg : bit / 64 = j / 64
  · have hd : decide (bit % 64 ≠ j % 64) = decide (bit ≠ j) := decide_eq_decide.2 (by omega)
    simp only [isUsed, unmark, hg, Vector.getElem_set_self]
    rw [testBit_and_not_single _ hm hmj, hd]
  · have hd : decide (bit ≠ j) = true := decide_eq_true (by omega)
    simp [isUsed, unmark, Vector.getElem_set_ne _ _ hg, hd]

def bits (group : UInt64) : Vector Bool 64 := Vector.ofFn fun k => testBit group k

/-- The lowest bit that is clear: it lies in the first group that is not full. -/
def firstFree? (b : BitmapBlock) : Option (Fin 4096) := do
  let i ← b.groups.findFinIdx? (· != fullGroup)
  let k ← (bits (slot b.groups i)).findFinIdx? (!·)
  return ⟨64 * i.val + k.val, by omega⟩

theorem findFinIdx?_eq_some_iff {α : Type} {n : Nat} {xs : Vector α n} {p : α → Bool}
    {i : Fin n} : xs.findFinIdx? p = some i ↔
      p (slot xs i) = true ∧ ∀ j, j < i → p (slot xs j) = false := by
  rcases xs with ⟨xs, rfl⟩
  simp [slot, Array.findFinIdx?_eq_some_iff]

theorem exists_clear_of_ne_fullGroup {group : UInt64} (h : group ≠ fullGroup) :
    ∃ k : Fin 64, testBit group k = false := by
  apply Classical.byContradiction
  intro hn
  apply h
  apply eq_of_testBit
  intro k hk
  rw [testBit_fullGroup hk]
  cases ht : testBit group k with
  | true => rfl
  | false => exact absurd ⟨⟨k, hk⟩, ht⟩ hn

theorem firstFree?_eq_none_iff {b : BitmapBlock} :
    b.firstFree? = none ↔ ∀ bit, (h : bit < 4096) → b.isUsed bit h = true := by
  constructor
  · intro hn bit h
    have hi : b.groups.findFinIdx? (· != fullGroup) = none := by
      cases hi : b.groups.findFinIdx? (· != fullGroup) with
      | none => rfl
      | some i =>
        obtain ⟨hp, _⟩ := findFinIdx?_eq_some_iff.1 hi
        obtain ⟨k, hk⟩ := exists_clear_of_ne_fullGroup (by simpa using hp)
        cases hs : (bits (slot b.groups i)).findFinIdx? (!·) with
        | none =>
          have hall := Vector.findFinIdx?_eq_none_iff.1 hs
          have hmem := hall (bits (slot b.groups i))[k] (Vector.getElem_mem k.isLt)
          simp [bits, hk] at hmem
        | some k => simp [firstFree?, hi, hs] at hn
    have hg := Vector.findFinIdx?_eq_none_iff.1 hi b.groups[bit / 64]
      (Vector.getElem_mem (by omega))
    have he : b.groups[bit / 64] = fullGroup := by simpa using hg
    rw [isUsed, he]
    exact testBit_fullGroup (Nat.mod_lt _ (by decide))
  · intro hall
    have hi : b.groups.findFinIdx? (· != fullGroup) = none := by
      apply Vector.findFinIdx?_eq_none_iff.2
      intro group hm
      obtain ⟨i, hi, rfl⟩ := Vector.mem_iff_getElem.1 hm
      have he : b.groups[i] = fullGroup := by
        apply eq_of_testBit
        intro k hk
        have hu := hall (64 * i + k) (by omega)
        have hd : (64 * i + k) / 64 = i := by omega
        have hr : (64 * i + k) % 64 = k := by omega
        simp only [isUsed, hd, hr] at hu
        rw [hu, testBit_fullGroup hk]
      simp [he]
    simp [firstFree?, hi]

theorem firstFree?_eq_some {b : BitmapBlock} {bit : Fin 4096} (h : b.firstFree? = some bit) :
    b.isUsed bit bit.isLt = false ∧
      ∀ j, (hj : j < bit.val) → b.isUsed j (Nat.lt_trans hj bit.isLt) = true := by
  cases hi : b.groups.findFinIdx? (· != fullGroup) with
  | none => simp [firstFree?, hi] at h
  | some i =>
    cases hk : (bits (slot b.groups i)).findFinIdx? (!·) with
    | none => simp [firstFree?, hi, hk] at h
    | some k =>
      simp only [firstFree?, hi, hk, Option.bind_eq_bind, Option.bind_some, Option.pure_def,
        Option.some.injEq] at h
      subst h
      obtain ⟨_, hbelow⟩ := findFinIdx?_eq_some_iff.1 hi
      obtain ⟨hclear, hlower⟩ := findFinIdx?_eq_some_iff.1 hk
      have hd : (64 * i.val + k.val) / 64 = i.val := by omega
      have hr : (64 * i.val + k.val) % 64 = k.val := by omega
      constructor
      · simp only [isUsed, hd, hr]
        simpa [bits, slot] using hclear
      · intro j hj
        have hlt : j / 64 < i.val ∨ (j / 64 = i.val ∧ j % 64 < k.val) := by
          simp only at hj
          omega
        rcases hlt with hlt | ⟨he, hlt⟩
        · have hf := hbelow ⟨j / 64, by omega⟩ hlt
          have hg : b.groups[j / 64] = fullGroup := by simpa [slot] using hf
          rw [isUsed, hg]
          exact testBit_fullGroup (Nat.mod_lt _ (by decide))
        · have hu := hlower ⟨j % 64, by omega⟩ hlt
          simp only [isUsed, he]
          simpa [bits, slot] using hu

def countOnes (group : UInt64) : Nat :=
  (List.range 64).countP (testBit group)

def usedCount (b : BitmapBlock) : Nat :=
  b.groups.foldl (fun n group => n + countOnes group) 0

end BitmapBlock

end InodeVolume

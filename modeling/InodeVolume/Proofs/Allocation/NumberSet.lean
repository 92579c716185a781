import InodeVolume.Allocation.FreeMap
import InodeVolume.Proofs.Program.Ensures
import Mathlib.Data.Finset.Card
import Mathlib.Data.Finset.Range

/-!
The free map as a finite set of numbers. `m.Records d used` says that the bits set on the image are
those of the numbers of `used`, all of them below the capacity. Resetting the map makes it the set
of the first numbers, allocation adds the lowest number that is missing, and release takes one out.
All of that holds for a map at any place and of any capacity that its bits can account for.
-/
namespace InodeVolume

namespace FreeMap

/-- Whether the bit of sector `n` is set. -/
def marks (m : FreeMap) (d : Image) (n : Nat) : Bool :=
  (decode (d (m.start + n / sectorBits)) : BitmapBlock).isUsed (n % sectorBits) (bit_lt n)

/-- The number of sectors up to the end of the map. -/
def reserved (m : FreeMap) : Nat := m.start + m.blocks

/-- The sectors that hold the map. -/
def InMap (m : FreeMap) (n : Nat) : Prop := m.start ≤ n ∧ n < m.reserved

/-- The map lies behind the super block, on a device of `size` sectors, and has bits enough for what
it accounts for. -/
structure Lies (m : FreeMap) (size : Nat) : Prop where
  start_pos : 0 < m.start
  reserved_le : m.reserved ≤ size
  reserved_le_word : m.reserved ≤ 0x100000000
  capacity_le_bits : m.capacity ≤ sectorBits * m.blocks
  capacity_lt : m.capacity < 0x100000000

/-- The numbers whose bits are set. -/
structure Records (m : FreeMap) (d : Image) (used : Finset Nat) : Prop where
  lt_capacity {n : Nat} : n ∈ used → n < m.capacity
  marks_iff {n : Nat} : n < sectorBits * m.blocks → (m.marks d n = true ↔ n ∈ used)

variable {m : FreeMap} {size limit : Nat} {d d' : Image} {used : Finset Nat} {id : SectorId}
  {i k n : Nat}

theorem bit_index (n : Nat) : sectorBits * (n / sectorBits) + n % sectorBits = n :=
  Nat.div_add_mod n sectorBits

section Marks

theorem marks_congr (h : d' (m.start + n / sectorBits) = d (m.start + n / sectorBits)) :
    m.marks d' n = m.marks d n := by
  rw [marks, h, marks]

theorem marks_eq_isUsed {b : BitmapBlock} (hb : decode (d (m.start + n / sectorBits)) = b) :
    m.marks d n = b.isUsed (n % sectorBits) (bit_lt n) := by
  rw [marks, hb]

/-- A map sector is written. -/
theorem marks_update (m : FreeMap) (d : Image) (b : BitmapBlock) (i n : Nat) :
    m.marks (Function.update d (m.start + i) (encode b)) n =
      if n / sectorBits = i then b.isUsed (n % sectorBits) (bit_lt n) else m.marks d n := by
  by_cases h : n / sectorBits = i
  · rw [if_pos h]
    refine marks_eq_isUsed ?_
    rw [h, Function.update_self, BitmapBlock.decode_encode]
  · rw [if_neg h]
    exact marks_congr (Function.update_of_ne (by omega) _ _)

/-- One bit is set. -/
theorem marks_mark {b : BitmapBlock} (hb : decode (d (m.start + i)) = b) {bit : Nat}
    (hbit : bit < sectorBits) (n : Nat) :
    m.marks (Function.update d (m.start + i) (encode (b.mark bit hbit))) n =
      (m.marks d n || decide (n = sectorBits * i + bit)) := by
  simp only [sectorBits] at hbit
  rw [marks_update]
  by_cases h : n / sectorBits = i
  · rw [if_pos h, BitmapBlock.isUsed_mark, marks_eq_isUsed (h ▸ hb)]
    congr 1
    exact decide_eq_decide.2 (by simp only [sectorBits] at *; omega)
  · rw [if_neg h, decide_eq_false (by simp only [sectorBits] at *; omega), Bool.or_false]

/-- One bit is cleared. -/
theorem marks_unmark {b : BitmapBlock} (hb : decode (d (m.start + i)) = b) {bit : Nat}
    (hbit : bit < sectorBits) (n : Nat) :
    m.marks (Function.update d (m.start + i) (encode (b.unmark bit hbit))) n =
      (m.marks d n && decide (n ≠ sectorBits * i + bit)) := by
  simp only [sectorBits] at hbit
  rw [marks_update]
  by_cases h : n / sectorBits = i
  · rw [if_pos h, BitmapBlock.isUsed_unmark, marks_eq_isUsed (h ▸ hb)]
    congr 1
    exact decide_eq_decide.2 (by simp only [sectorBits] at *; omega)
  · rw [if_neg h, decide_eq_true (by simp only [sectorBits] at *; omega), Bool.and_true]

/-- The bits decide what the sectors of the map hold. -/
theorem map_eq_of_marks (h : ∀ k, k < sectorBits * m.blocks → m.marks d' k = m.marks d k)
    (hn : m.InMap n) : d' n = d n := by
  obtain ⟨i, rfl⟩ := Nat.exists_eq_add_of_le hn.1
  have hi : i < m.blocks := Nat.lt_of_add_lt_add_left hn.2
  have hblock : (decode (d' (m.start + i)) : BitmapBlock) = decode (d (m.start + i)) := by
    apply BitmapBlock.eq_of_isUsed
    intro bit hbit
    have hdiv : (sectorBits * i + bit) / sectorBits = i := by
      simp only [sectorBits]
      omega
    have hmod : (sectorBits * i + bit) % sectorBits = bit := by
      simp only [sectorBits]
      omega
    have hmarks := h (sectorBits * i + bit) (by simp only [sectorBits]; omega)
    simpa only [marks, hdiv, hmod] using hmarks
  rw [← BitmapBlock.encode_decode (d' _), hblock, BitmapBlock.encode_decode]

theorem image_eq_of_marks (h : ∀ k, k < sectorBits * m.blocks → m.marks d' k = m.marks d k)
    (hd : ∀ n, ¬ m.InMap n → d' n = d n) : d' = d := by
  funext n
  by_cases hn : m.InMap n
  · exact map_eq_of_marks h hn
  · exact hd n hn

end Marks

theorem inMap_start_add (hi : i < m.blocks) : m.InMap (m.start + i) :=
  ⟨Nat.le_add_right _ _, Nat.add_lt_add_left hi _⟩

namespace Lies

theorem lt_of_inMap (h : m.Lies size) (hn : m.InMap n) : n < size :=
  Nat.lt_of_lt_of_le hn.2 h.reserved_le

theorem block_lt (h : m.Lies size) (hn : n < m.capacity) : n / sectorBits < m.blocks :=
  Nat.div_lt_of_lt_mul (Nat.lt_of_lt_of_le hn h.capacity_le_bits)

/-- The sectors of the map have numbers. -/
theorem block_eq (h : m.Lies size) (hi : i < m.blocks) :
    ∃ place : SectorId, SectorId.ofIndex? (m.start + i) = some place ∧
      place.index = m.start + i := by
  have hlt := h.reserved_le_word
  have hpos := h.start_pos
  rw [FreeMap.reserved] at hlt
  cases hp : SectorId.ofIndex? (m.start + i) with
  | none =>
    have hnone := SectorId.ofIndex?_eq_none_iff.1 hp
    omega
  | some place => exact ⟨place, rfl, SectorId.index_of_ofIndex? hp⟩

theorem block_ensures {A : Nat → Prop} {G : Image → Image → Prop} {Q : SectorId → Image → Prop}
    (h : m.Lies size) (hi : i < m.blocks)
    (hQ : ∀ place : SectorId, place.index = m.start + i → Q place d) :
    (m.block i).Ensures A G Q d := by
  obtain ⟨place, hplace, hindex⟩ := h.block_eq hi
  rw [block, Program.ensures_getOrBreach]
  exact ⟨place, hplace, hQ place hindex⟩

end Lies

namespace Records

theorem congr (h : m.Records d used) (hd : ∀ n, m.InMap n → d' n = d n) : m.Records d' used where
  lt_capacity := h.lt_capacity
  marks_iff {n} hn := by
    rw [marks_congr (hd _ (inMap_start_add (Nat.div_lt_of_lt_mul hn)))]
    exact h.marks_iff hn

theorem marks_of_mem (h : m.Records d used) (hm : m.Lies size) (hn : n ∈ used) :
    m.marks d n = true :=
  (h.marks_iff (Nat.lt_of_lt_of_le (h.lt_capacity hn) hm.capacity_le_bits)).2 hn

theorem insert (h : m.Records d used) (hn : n < m.capacity)
    (hd : ∀ k, m.marks d' k = (m.marks d k || decide (k = n))) :
    m.Records d' (insert n used) where
  lt_capacity {k} hk := by
    rcases Finset.mem_insert.1 hk with rfl | hk
    · exact hn
    · exact h.lt_capacity hk
  marks_iff {k} hk := by
    rw [hd, Bool.or_eq_true, h.marks_iff hk, decide_eq_true_iff, Finset.mem_insert, or_comm]

theorem erase (h : m.Records d used)
    (hd : ∀ k, m.marks d' k = (m.marks d k && decide (k ≠ n))) : m.Records d' (used.erase n) where
  lt_capacity hk := h.lt_capacity (Finset.mem_of_mem_erase hk)
  marks_iff {k} hk := by
    rw [hd, Bool.and_eq_true, h.marks_iff hk, decide_eq_true_iff, Finset.mem_erase, and_comm]

/-- Maps of the same numbers are equal. -/
theorem image_eq (h : m.Records d used) (h' : m.Records d' used)
    (hd : ∀ n, ¬ m.InMap n → d' n = d n) : d' = d :=
  image_eq_of_marks (fun _ hk => Bool.eq_iff_iff.2 ((h'.marks_iff hk).trans (h.marks_iff hk).symm))
    hd

/-- A number whose bit is set in the map sector that accounts for it. -/
theorem mem_of_isUsed (h : m.Records d used) (hm : m.Lies size) (hn : n / sectorBits = i)
    (hlt : n < m.capacity)
    (hused : (decode (d (m.start + i)) : BitmapBlock).isUsed (n % sectorBits) (bit_lt n) = true) :
    n ∈ used := by
  refine (h.marks_iff (Nat.lt_of_lt_of_le hlt hm.capacity_le_bits)).1 ?_
  rw [marks_eq_isUsed (b := decode (d (m.start + i))) (by rw [hn])]
  exact hused

end Records

section Programs

open Program

/-- The bits of `used` stay set on the way. -/
def Retains (m : FreeMap) (used : Finset Nat) (_ d₂ : Image) : Prop :=
  ∀ n ∈ used, m.marks d₂ n = true

theorem claimIn_records (hm : m.Lies size) (h : m.Records d used) (hi : i < m.blocks) :
    (m.claimIn i).Ensures m.InMap (m.Retains used)
      (fun x d' => match x with
        | none => d' = d ∧ ∀ n, n / sectorBits = i → n < m.capacity → n ∈ used
        | some n => n / sectorBits = i ∧ n < m.capacity ∧ n ∉ used ∧
          (∀ k, k / sectorBits = i → k < n → k ∈ used) ∧ m.Records d' (insert n used)) d := by
  have hmap : m.InMap (m.start + i) := inMap_start_add hi
  have hkeep : m.Retains used d d := fun n hn => h.marks_of_mem hm hn
  have hsame : Function.update d (m.start + i)
      (encode (decode (d (m.start + i)) : BitmapBlock)) = d := by
    rw [BitmapBlock.encode_decode, Function.update_eq_self]
  rw [claimIn, bind_eq, ensures_bind]
  refine hm.block_ensures hi fun place hplace => ?_
  simp only [bind_eq, ensures_bind, ensures_load, hplace]
  refine ⟨hmap, ?_⟩
  cases hfree : (decode (d (m.start + i)) : BitmapBlock).firstFree? with
  | none =>
    simp only [pure_eq, ensures_bind, ensures_store, ensures_done, hplace, hsame]
    refine ⟨hmap, hkeep, trivial, fun n hn hlt => ?_⟩
    exact h.mem_of_isUsed hm hn hlt (BitmapBlock.firstFree?_eq_none_iff.1 hfree _ (bit_lt n))
  | some bit =>
    obtain ⟨hunused, hbelow⟩ := BitmapBlock.firstFree?_eq_some hfree
    have hbit : bit.val < sectorBits := bit.isLt
    have hdiv : (sectorBits * i + bit.val) / sectorBits = i := by
      simp only [sectorBits] at *
      omega
    have hmod : (sectorBits * i + bit.val) % sectorBits = bit.val := by
      simp only [sectorBits] at *
      omega
    have hlowest (k : Nat) (hk : k / sectorBits = i) (hlt : k % sectorBits < bit.val)
        (hcap : k < m.capacity) : k ∈ used := h.mem_of_isUsed hm hk hcap (hbelow _ hlt)
    by_cases hlt : sectorBits * i + bit.val < m.capacity
    · have hmarks := marks_mark (m := m) (d := d) (i := i) rfl hbit
      have hclear : m.marks d (sectorBits * i + bit.val) = false := by
        rw [marks_eq_isUsed (b := decode (d (m.start + i))) (by rw [hdiv])]
        simp only [hmod]
        exact hunused
      have hnew : sectorBits * i + bit.val ∉ used := fun hmem =>
        Bool.false_ne_true (hclear.symm.trans (h.marks_of_mem hm hmem))
      simp only [hlt, if_true, pure_eq, ensures_bind, ensures_store, ensures_done, hplace]
      refine ⟨hmap, fun n hn => ?_, hdiv, trivial, hnew, fun k hk hkn => ?_, h.insert hlt hmarks⟩
      · rw [hmarks, h.marks_of_mem hm hn, Bool.true_or]
      · refine hlowest k hk ?_ (hkn.trans hlt)
        simp only [sectorBits] at *
        omega
    · simp only [if_neg hlt, pure_eq, ensures_bind, ensures_store, ensures_done, hplace, hsame]
      refine ⟨hmap, hkeep, trivial, fun n hn hcap => hlowest n hn ?_ hcap⟩
      simp only [sectorBits] at *
      omega

theorem claimFrom_records {count : Nat} (hm : m.Lies size) (h : m.Records d used)
    (hzero : 0 ∈ used) (hi : i + count ≤ m.blocks) :
    (m.claimFrom i count).Ensures m.InMap (m.Retains used)
      (fun x d' => match x with
        | none => d' = d ∧
          ∀ n, i ≤ n / sectorBits → n / sectorBits < i + count → n < m.capacity → n ∈ used
        | some id => id.index < m.capacity ∧ id.index ∉ used ∧
          (∀ n, i ≤ n / sectorBits → n < id.index → n ∈ used) ∧
          m.Records d' (insert id.index used)) d := by
  induction count generalizing i d with
  | zero => exact ⟨rfl, fun n h₁ h₂ => absurd h₂ (Nat.not_lt.2 h₁)⟩
  | succ count ih =>
    rw [claimFrom, bind_eq, ensures_bind]
    refine (claimIn_records hm h (by omega)).imp ?_
    rintro (_ | n) d₁ hx
    · obtain ⟨rfl, hfull⟩ := hx
      refine (ih h (by omega)).imp ?_
      rintro (_ | id) d₂ hpost
      · refine ⟨hpost.1, fun n h₁ h₂ hlt => ?_⟩
        by_cases hn : n / sectorBits = i
        · exact hfull n hn hlt
        · exact hpost.2 n (by omega) (by omega) hlt
      · obtain ⟨hlt, hnew, hlowest, hrecords⟩ := hpost
        refine ⟨hlt, hnew, fun n h₁ hn => ?_, hrecords⟩
        by_cases hin : n / sectorBits = i
        · exact hfull n hin (hn.trans hlt)
        · exact hlowest n (by omega) hn
    · obtain ⟨hn, hlt, hnew, hlowest, hrecords⟩ := hx
      obtain ⟨id, hid⟩ : ∃ id, SectorId.ofIndex? n = some id := by
        rw [← Option.isSome_iff_exists, ← Option.ne_none_iff_isSome, Ne,
          SectorId.ofIndex?_eq_none_iff]
        rintro (rfl | hlarge)
        · exact hnew hzero
        · exact absurd (hlt.trans hm.capacity_lt) (Nat.not_lt.2 hlarge)
      obtain rfl := SectorId.index_of_ofIndex? hid
      simp only [hid, pure_eq, ensures_done]
      refine ⟨hlt, hnew, fun k hk hkn => hlowest k ?_ hkn, hrecords⟩
      simp only [sectorBits] at *
      omega

/-- The map hands out the lowest number that is missing, and refuses only when none is. -/
theorem allocate_records (hm : m.Lies size) (h : m.Records d used) (hzero : 0 ∈ used) :
    m.allocate.Ensures m.InMap (m.Retains used)
      (fun x d' => match x with
        | none => d' = d ∧ ∀ n, n < m.capacity → n ∈ used
        | some id => id.index < m.capacity ∧ id.index ∉ used ∧ (∀ n, n < id.index → n ∈ used) ∧
          m.Records d' (insert id.index used)) d := by
  simp only [allocate, bind_eq, pure_eq, ensures_bind, ensures_note, ensures_done]
  refine (claimFrom_records hm h hzero (by omega)).imp ?_
  rintro (_ | id) d' hpost
  · refine ⟨hpost.1, fun n hn => hpost.2 n (Nat.zero_le _) ?_ hn⟩
    rw [Nat.zero_add]
    exact hm.block_lt hn
  · obtain ⟨hlt, hnew, hlowest, hrecords⟩ := hpost
    exact ⟨hlt, hnew, fun n hn => hlowest n (Nat.zero_le _) hn, hrecords⟩

theorem release_records (hm : m.Lies size) (h : m.Records d used) (hid : id.index ∈ used) :
    (m.release id).Ensures m.InMap (m.Retains (used.erase id.index))
      (fun _ d' => m.Records d' (used.erase id.index)) d := by
  have hlt := h.lt_capacity hid
  have hi := hm.block_lt hlt
  have hmarks := marks_unmark (m := m) (d := d) (i := id.index / sectorBits) rfl
    (bit_lt id.index)
  rw [bit_index] at hmarks
  have hrecords := h.erase hmarks
  simp only [release, bind_eq, ensures_bind, ensures_note, ensures_require]
  refine ⟨hlt, hm.block_ensures hi fun place hplace => ?_⟩
  simp only [ensures_load, ensures_store, hplace]
  exact ⟨inMap_start_add hi, h.marks_of_mem hm hid, inMap_start_add hi,
    fun n hn => hrecords.marks_of_mem hm hn, hrecords⟩

/-- Map sectors are cleared one after the other. -/
theorem clear_records (hm : m.Lies size) (hi : i < m.blocks)
    (hd : ∀ n, n / sectorBits < i → m.marks d n = false) :
    Ensures m.InMap (fun _ _ => True) (do Disk.store (← m.block i) BitmapBlock.empty)
      (fun _ d' => ∀ n, n / sectorBits < i + 1 → m.marks d' n = false) d := by
  rw [bind_eq, ensures_bind]
  refine hm.block_ensures hi fun place hplace => ?_
  rw [ensures_store, hplace]
  refine ⟨inMap_start_add hi, trivial, fun n hn => ?_⟩
  rw [marks_update]
  split
  · exact BitmapBlock.isUsed_empty _ _
  · exact hd n (by omega)

/-- The first numbers are marked one after the other. -/
theorem reserve_records (hm : m.Lies size) (hk : k < m.capacity)
    (hd : m.Records d (Finset.range k)) :
    Ensures m.InMap (fun _ _ => True)
      (do Disk.update (← m.block (k / sectorBits)) fun b : BitmapBlock =>
        b.mark (k % sectorBits) (bit_lt k))
      (fun _ d' => m.Records d' (Finset.range (k + 1))) d := by
  have hmap := inMap_start_add (hm.block_lt hk)
  have hmarks := marks_mark (m := m) (d := d) (i := k / sectorBits) rfl (bit_lt k)
  rw [bit_index] at hmarks
  rw [bind_eq, ensures_bind]
  refine hm.block_ensures (hm.block_lt hk) fun place hplace => ?_
  simp only [Disk.update, bind_eq, ensures_bind, ensures_load, ensures_store, hplace]
  rw [Finset.range_add_one]
  exact ⟨hmap, hmap, trivial, hd.insert hk hmarks⟩

/-- A map that is reset records the numbers below `limit` alone. -/
theorem reset_records (hm : m.Lies size) (hlimit : limit ≤ m.capacity) :
    (m.reset limit).Ensures m.InMap (fun _ _ => True)
      (fun _ d' => m.Records d' (Finset.range limit)) d := by
  rw [reset, bind_eq, ensures_bind]
  refine ensures_forRange (I := fun i d' => ∀ n, n / sectorBits < i → m.marks d' n = false)
    (fun i e _ hi he => clear_records hm (by omega) he) (fun n hn => absurd hn (Nat.not_lt_zero _))
    fun d₁ hd₁ => ?_
  refine ensures_forRange (I := fun k d' => m.Records d' (Finset.range k))
    (fun k e _ hk he => reserve_records hm (by omega) he) ?_ fun d₂ hd₂ => ?_
  · refine ⟨by simp, fun {n} hn => ?_⟩
    have hblock : n / sectorBits < 0 + m.blocks := by
      rw [Nat.zero_add]
      exact Nat.div_lt_of_lt_mul hn
    simp [hd₁ n hblock]
  · rwa [Nat.zero_add] at hd₂

end Programs

end FreeMap

end InodeVolume

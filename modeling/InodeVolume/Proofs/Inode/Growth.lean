import InodeVolume.Inode.Growth
import InodeVolume.Proofs.Inode.Pointers

/-!
Growth of an inode. A block that is added fills the slots that it is the first to need, in a fixed
order and with the next of the sectors obtained; the slots of earlier blocks and what their data
sectors hold stay as they are, at every point of the way and whether they are read through the old
record or through the new one.
-/
namespace InodeVolume

namespace PointerSlot

/-- The slots that a block is the first to need, in the order in which growth fills them. -/
def newAt : BlockAddress → List PointerSlot
  | .direct i => [data (.direct i)]
  | .indirect outer inner =>
    data (.indirect outer inner) :: if inner.val = 0 then [index (.indirect outer)] else []
  | .doubleIndirect outer inner =>
    data (.doubleIndirect outer inner) ::
      ((if outer.val = 0 ∧ inner.val = 0 then [index .double] else []) ++
        if inner.val = 0 then [index (.doubleEntry outer)] else [])

section NewAt

variable {o : Fin 24} {outer inner : Fin 128}

theorem newAt_direct (i : Fin 100) : newAt (.direct i) = [data (.direct i)] := rfl

theorem newAt_indirect_zero (h : inner.val = 0) :
    newAt (.indirect o inner) = [data (.indirect o inner), index (.indirect o)] := by
  simp [newAt, h]

theorem newAt_indirect_of_ne (h : inner.val ≠ 0) :
    newAt (.indirect o inner) = [data (.indirect o inner)] := by
  simp [newAt, h]

theorem newAt_doubleIndirect_first (h : inner.val = 0) (ho : outer.val = 0) :
    newAt (.doubleIndirect outer inner) =
      [data (.doubleIndirect outer inner), index .double, index (.doubleEntry outer)] := by
  simp [newAt, h, ho]

theorem newAt_doubleIndirect_zero (h : inner.val = 0) (ho : outer.val ≠ 0) :
    newAt (.doubleIndirect outer inner) =
      [data (.doubleIndirect outer inner), index (.doubleEntry outer)] := by
  simp [newAt, h, ho]

theorem newAt_doubleIndirect_of_ne (h : inner.val ≠ 0) :
    newAt (.doubleIndirect outer inner) = [data (.doubleIndirect outer inner)] := by
  simp [newAt, h]

end NewAt

/-- Each slot is needed by some block. -/
theorem first_lt (s : PointerSlot) : s.first < maxBlocks := by
  cases s with
  | index p => cases p <;> simp only [first_index, IndexSlot.first, maxBlocks] <;> omega
  | data a => exact a.toIndex_lt

theorem index_mem_newAt {a : BlockAddress} {p : IndexSlot} :
    index p ∈ newAt a ↔ p.first = a.toIndex := by
  cases a with
  | direct i =>
    rw [newAt_direct]
    cases p <;> simp [IndexSlot.first, BlockAddress.toIndex] <;> omega
  | indirect outer inner =>
    by_cases hi : inner.val = 0
    · rw [newAt_indirect_zero hi]
      cases p <;> simp [IndexSlot.first, BlockAddress.toIndex, Fin.ext_iff, hi] <;> omega
    · rw [newAt_indirect_of_ne hi]
      cases p <;> simp [IndexSlot.first, BlockAddress.toIndex] <;> omega
  | doubleIndirect outer inner =>
    by_cases hi : inner.val = 0
    · by_cases ho : outer.val = 0
      · rw [newAt_doubleIndirect_first hi ho]
        cases p <;>
          simp only [List.mem_cons, List.not_mem_nil, reduceCtorEq, index.injEq, or_false, false_or,
            true_iff, false_iff, IndexSlot.doubleEntry.injEq, Fin.ext_iff, IndexSlot.first,
            BlockAddress.toIndex] <;>
          omega
      · rw [newAt_doubleIndirect_zero hi ho]
        cases p <;>
          simp only [List.mem_cons, List.not_mem_nil, reduceCtorEq, index.injEq, or_false, false_or,
            false_iff, IndexSlot.doubleEntry.injEq, Fin.ext_iff, IndexSlot.first,
            BlockAddress.toIndex] <;>
          omega
    · rw [newAt_doubleIndirect_of_ne hi]
      cases p <;> simp [IndexSlot.first, BlockAddress.toIndex] <;> omega

theorem data_mem_newAt {a b : BlockAddress} : data b ∈ newAt a ↔ b.toIndex = a.toIndex := by
  have hb : b.toIndex = a.toIndex ↔ b = a :=
    ⟨fun h => BlockAddress.toIndex_injective h, fun h => congrArg _ h⟩
  rw [hb]
  cases a with
  | direct i => simp [newAt]
  | indirect outer inner => by_cases hi : inner = 0 <;> simp [newAt, hi]
  | doubleIndirect outer inner =>
    by_cases hi : inner = 0 <;> by_cases ho : outer = 0 <;> simp [newAt, hi, ho]

theorem mem_newAt {a : BlockAddress} {s : PointerSlot} : s ∈ newAt a ↔ s.first = a.toIndex := by
  cases s with
  | index p => exact index_mem_newAt
  | data b => exact data_mem_newAt

/-- A block fills its data slot first. -/
theorem newAt_eq_cons (a : BlockAddress) :
    newAt a = data a :: (newAt a).tail ∧ data a ∉ (newAt a).tail := by
  cases a with
  | direct i => simp [newAt]
  | indirect outer inner => by_cases hi : inner.val = 0 <;> simp [newAt, hi]
  | doubleIndirect outer inner =>
    by_cases hi : inner.val = 0 <;> by_cases ho : outer.val = 0 <;> simp [newAt, hi, ho]

/-- A block takes as many sectors as it adds to the number needed in all. -/
theorem length_newAt (a : BlockAddress) :
    totalSectors (a.toIndex + 1) = totalSectors a.toIndex + (newAt a).length := by
  cases a with
  | direct i =>
    rw [BlockAddress.toIndex, totalSectors_succ_direct i.isLt]
    rfl
  | indirect outer inner =>
    rw [BlockAddress.toIndex, totalSectors_succ_indirect (by omega) (by omega)]
    by_cases hi : inner.val = 0
    · rw [newAt_indirect_zero hi, if_pos (by omega)]
      rfl
    · rw [newAt_indirect_of_ne hi, if_neg (by omega)]
      rfl
  | doubleIndirect outer inner =>
    rw [BlockAddress.toIndex, totalSectors_succ_doubleIndirect (by omega)]
    by_cases hi : inner.val = 0
    · by_cases ho : outer.val = 0
      · rw [newAt_doubleIndirect_first hi ho, if_pos (by omega)]
        rfl
      · rw [newAt_doubleIndirect_zero hi ho, if_neg (by omega), if_pos (by omega)]
        rfl
    · rw [newAt_doubleIndirect_of_ne hi, if_neg (by omega), if_neg (by omega)]
      rfl

/-- The slots that `count` blocks from block `first` on are the first to need. -/
def newIn (first : Nat) : Nat → List PointerSlot
  | 0 => []
  | count + 1 => (BlockAddress.ofIndex? first).elim [] newAt ++ newIn (first + 1) count

theorem newIn_add (first count more : Nat) :
    newIn first (count + more) = newIn first count ++ newIn (first + count) more := by
  induction count generalizing first with
  | zero => rw [Nat.zero_add, newIn, List.nil_append, Nat.add_zero]
  | succ count ih =>
    rw [show count + 1 + more = count + more + 1 by omega, newIn, ih, newIn, List.append_assoc,
      show first + 1 + count = first + (count + 1) by omega]

theorem newIn_toIndex_succ (a : BlockAddress) (count : Nat) :
    newIn a.toIndex (count + 1) = newAt a ++ newIn (a.toIndex + 1) count := by
  rw [newIn, BlockAddress.ofIndex?_toIndex, Option.elim_some]

/-- The slots that are filled on the way to a number of blocks are those that only these need. -/
theorem mem_newIn {first count : Nat} {s : PointerSlot} :
    s ∈ newIn first count ↔ first ≤ s.first ∧ s.first < first + count := by
  induction count generalizing first with
  | zero =>
    simp only [newIn, List.not_mem_nil, false_iff]
    omega
  | succ count ih =>
    have hhead : s ∈ (BlockAddress.ofIndex? first).elim [] newAt ↔ s.first = first := by
      cases ha : BlockAddress.ofIndex? first with
      | none =>
        have hlt := s.first_lt
        have hle := BlockAddress.ofIndex?_eq_none_iff.1 ha
        simp only [Option.elim_none, List.not_mem_nil, false_iff]
        omega
      | some a => rw [Option.elim_some, mem_newAt, BlockAddress.toIndex_of_ofIndex? ha]
    rw [newIn, List.mem_append, hhead, ih]
    omega

theorem mem_of_filled {look : PointerSlot → Option SectorId} {slots : List PointerSlot}
    {ids : List SectorId} {s : PointerSlot} {id : SectorId}
    (hfilled : slots.map look = ids.map some) (hs : s ∈ slots) (hid : look s = some id) :
    id ∈ ids := by
  have hmem : look s ∈ ids.map some := hfilled ▸ List.mem_map_of_mem hs
  rwa [hid, List.mem_map_of_injective (Option.some_injective _)] at hmem

end PointerSlot

/-- `r'` has the pointers of `r` below block `n`, and differs from it in no other field. -/
structure InodeRecord.Extends (n : Nat) (r r' : InodeRecord) : Prop where
  kindWord : r'.kindWord = r.kindWord
  length : r'.length = r.length
  magic : r'.magic = r.magic
  direct (i : Fin 100) : i.val < n → slot r'.direct i = slot r.direct i
  indirect (o : Fin 24) : 100 + 128 * o.val < n → slot r'.indirect o = slot r.indirect o
  double : 3172 < n → r'.doubleIndirect = r.doubleIndirect

/-- The pointers below block `n`, and the data sectors that they point to, are as before. -/
structure InodeRecord.Preserves (n : Nat) (r : InodeRecord) (d d' : Image) : Prop where
  pointer (s : PointerSlot) : s.first < n → r.pointerAt d' s = r.pointerAt d s
  content {a : BlockAddress} {id : SectorId} :
    a.toIndex < n → r.dataAt d a = some id → d' id.index = d id.index

namespace InodeRecord

variable {n m : Nat} {r r' r'' : InodeRecord} {d d' d'' : Image} {P : Finset SectorId}

namespace Extends

theorem refl (n : Nat) (r : InodeRecord) : Extends n r r where
  kindWord := rfl
  length := rfl
  magic := rfl
  direct _ _ := rfl
  indirect _ _ := rfl
  double _ := rfl

theorem trans (h : Extends n r r') (h' : Extends m r' r'') (hnm : n ≤ m) : Extends n r r'' where
  kindWord := h'.kindWord.trans h.kindWord
  length := h'.length.trans h.length
  magic := h'.magic.trans h.magic
  direct i hi := (h'.direct i (by omega)).trans (h.direct i hi)
  indirect o ho := (h'.indirect o (by omega)).trans (h.indirect o ho)
  double hn := (h'.double (by omega)).trans (h.double hn)

theorem pointerAt_eq (h : Extends n r r') {s : PointerSlot} (hs : s.first < n) :
    r'.pointerAt d s = r.pointerAt d s := by
  cases s with
  | index p =>
    cases p with
    | indirect o => exact h.indirect o hs
    | double => exact h.double hs
    | doubleEntry o =>
      rw [PointerSlot.first_index, IndexSlot.first] at hs
      rw [pointerAt_index, pointerAt_index, indexAt_doubleEntry, indexAt_doubleEntry,
        h.double (by omega)]
  | data a =>
    cases a with
    | direct i => exact h.direct i hs
    | indirect o j =>
      rw [PointerSlot.first_data, BlockAddress.toIndex] at hs
      rw [pointerAt_data, pointerAt_data, dataAt_indirect, dataAt_indirect,
        h.indirect o (by omega)]
    | doubleIndirect o j =>
      rw [PointerSlot.first_data, BlockAddress.toIndex] at hs
      rw [pointerAt_data, pointerAt_data, dataAt_doubleIndirect, dataAt_doubleIndirect,
        h.double (by omega)]

end Extends

namespace Preserves

theorem refl (n : Nat) (r : InodeRecord) (d : Image) : Preserves n r d d where
  pointer _ _ := rfl
  content _ _ := rfl

theorem mono (h : Preserves m r d d') (hnm : n ≤ m) : Preserves n r d d' where
  pointer s hs := h.pointer s (by omega)
  content ha hid := h.content (by omega) hid

theorem trans (h : Preserves n r d d') (h' : Preserves n r d' d'') : Preserves n r d d'' where
  pointer s hs := (h'.pointer s hs).trans (h.pointer s hs)
  content {a id} ha hid := by
    have hid' : r.dataAt d' a = some id := (h.pointer (.data a) ha).trans hid
    exact (h'.content ha hid').trans (h.content ha hid)

theorem of_extends (h : Preserves n r' d d') (he : Extends n r r') : Preserves n r d d' where
  pointer s hs := by
    rw [← he.pointerAt_eq hs, ← he.pointerAt_eq hs]
    exact h.pointer s hs
  content {a id} ha hid := by
    have hid' : r'.dataAt d a = some id := (he.pointerAt_eq (s := .data a) ha).trans hid
    exact h.content ha hid'

/-- A sector is written that no pointer leads to. -/
theorem of_update {dom : PointerSlot → Prop} {x : SectorId} {s : Sector}
    (h : Linked (r.pointerAt d) dom P) (hx : x ∉ P) :
    Preserves n r d (Function.update d x.index s) where
  pointer t _ := by rw [pointerAt_update_of_ne fun p => h.ne_some (s := .index p) hx]
  content {a id} _ hid := by
    have hne : id.index ≠ x.index := by
      intro he
      cases SectorId.index_injective he
      exact h.ne_some (s := .data a) hx hid
    exact Function.update_of_ne hne _ _

/-- An entry of an index block is set that no block below `n` needs. -/
theorem of_setEntry {dom : PointerSlot → Prop} {p : IndexSlot} {t : PointerSlot}
    {x id : SectorId} {i : Fin 128} (h : Linked (r.pointerAt d) dom P)
    (hx : r.indexAt d p = some x) (ht : n ≤ t.first)
    (hset : r.pointerAt (d.setEntry x i id) = Function.update (r.pointerAt d) t (some id)) :
    Preserves n r d (d.setEntry x i id) where
  pointer s hs := by
    have hne : s ≠ t := by
      rintro rfl
      omega
    rw [hset, Function.update_of_ne hne]
  content {a y} _ hy := by
    have hne : y.index ≠ x.index := by
      intro he
      cases SectorId.index_injective he
      cases h.injective (s := .index p) (t := .data a) hx hy
    exact Function.update_of_ne hne _ _

end Preserves

/-- How far the growth of `r` on `d` has come: the record and the image that it has reached, and the
slots that are filled by now. -/
structure Growing (n : Nat) (r : InodeRecord) (d : Image) (dom : PointerSlot → Prop)
    (P : Finset SectorId) (r' : InodeRecord) (d' : Image) : Prop where
  linked : Linked (r'.pointerAt d') dom P
  extension : Extends n r r'
  preserves : Preserves n r d d'

namespace Growing

variable {n : Nat} {r r' r'' : InodeRecord} {d d' : Image} {dom : PointerSlot → Prop}
  {P : Finset SectorId} {t : PointerSlot} {x id : SectorId} {p : IndexSlot} {i : Fin 128}
  {s : Sector}

theorem start (h : Linked (r.pointerAt d) dom P) : Growing n r d dom P r d where
  linked := h
  extension := .refl n r
  preserves := .refl n r d

theorem write (h : Growing n r d dom P r' d') (hx : x ∉ P) :
    Growing n r d dom P r' (Function.update d' x.index s) where
  linked := by
    rw [pointerAt_update_of_ne fun p => h.linked.ne_some (s := .index p) hx]
    exact h.linked
  extension := h.extension
  preserves := h.preserves.trans ((Preserves.of_update h.linked hx).of_extends h.extension)

/-- A pointer comes into the record. -/
theorem inRecord (h : Growing n r d dom P r' d') (he : Extends n r' r'')
    (hset : r''.pointerAt d' = Function.update (r'.pointerAt d') t (some id)) (ht : ¬ dom t)
    (hid : id ∉ P) : Growing n r d (fun u => u = t ∨ dom u) (insert id P) r'' d' where
  linked := by
    rw [hset]
    exact h.linked.attach ht hid
  extension := h.extension.trans he (Nat.le_refl n)
  preserves := h.preserves

/-- A pointer comes into an index block. -/
theorem inIndexBlock (h : Growing n r d dom P r' d') (hx : r'.indexAt d' p = some x)
    (hn : n ≤ t.first)
    (hset : r'.pointerAt (d'.setEntry x i id) = Function.update (r'.pointerAt d') t (some id))
    (ht : ¬ dom t) (hid : id ∉ P) :
    Growing n r d (fun u => u = t ∨ dom u) (insert id P) r' (d'.setEntry x i id) where
  linked := by
    rw [hset]
    exact h.linked.attach ht hid
  extension := h.extension
  preserves :=
    h.preserves.trans ((Preserves.of_setEntry h.linked hx hn hset).of_extends h.extension)

theorem congr {dom' : PointerSlot → Prop} {P' : Finset SectorId} (h : Growing n r d dom P r' d')
    (hd : ∀ u, dom u ↔ dom' u) (hP : P = P') : Growing n r d dom' P' r' d' where
  linked := hP ▸ h.linked.congr hd
  extension := h.extension
  preserves := h.preserves

theorem index_injective (h : Growing n r d dom P r' d') (p q : IndexSlot) (y : SectorId)
    (hp : r'.indexAt d' p = some y) (hq : r'.indexAt d' q = some y) : p = q := by
  cases h.linked.injective (s := .index p) (t := .index q) hp hq
  rfl

/-- The slots from before growth keep their pointers. -/
theorem pointerAt_eq (h : Growing n r d dom P r' d') {u : PointerSlot} (hu : u.first < n) :
    r'.pointerAt d' u = r.pointerAt d u :=
  (h.extension.pointerAt_eq hu).trans (h.preserves.pointer u hu)

/-- The index blocks of a record to which a block is added are those from before and new ones. -/
theorem index_mem {a : BlockAddress} {new : List SectorId} {X : Finset SectorId}
    (h : Growing a.toIndex r d (fun s => s.first < a.toIndex + 1) P r' d')
    (hfilled : (PointerSlot.newAt a).map (r'.pointerAt d') = new.map some)
    (hX : ∀ p id, r.indexAt d p = some id → id ∈ X) {p : IndexSlot}
    (hp : r'.indexAt d' p = some id) : id ∈ X ∪ new.toFinset := by
  have hlt : p.first < a.toIndex + 1 := by
    refine (h.linked.isSome_iff (.index p)).1 ?_
    rw [pointerAt_index, hp, Option.isSome_some]
  rcases Nat.lt_or_eq_of_le (Nat.le_of_lt_succ hlt) with hold | hnew
  · have hkept := h.pointerAt_eq (u := .index p) hold
    exact Finset.mem_union_left _ (hX p id (hkept.symm.trans hp))
  · have hmem := PointerSlot.mem_of_filled (s := .index p) hfilled (PointerSlot.mem_newAt.2 hnew) hp
    exact Finset.mem_union_right _ (List.mem_toFinset.2 hmem)

end Growing

section Pointers

variable {id : SectorId}

theorem Extends.setDirect (i : Fin 100) :
    Extends i.val r { r with direct := setSlot r.direct i (some id) } where
  kindWord := rfl
  length := rfl
  magic := rfl
  direct j hj := slot_setSlot_ne _ _ fun he => by
    subst he
    omega
  indirect _ _ := rfl
  double _ := rfl

theorem Extends.setIndirect {n : Nat} {o : Fin 24} (h : n ≤ 100 + 128 * o.val) :
    Extends n r { r with indirect := setSlot r.indirect o (some id) } where
  kindWord := rfl
  length := rfl
  magic := rfl
  direct _ _ := rfl
  indirect j hj := slot_setSlot_ne _ _ fun he => by
    subst he
    omega
  double _ := rfl

theorem Extends.setDouble {n : Nat} (h : n ≤ 3172) :
    Extends n r { r with doubleIndirect := some id } where
  kindWord := rfl
  length := rfl
  magic := rfl
  direct _ _ := rfl
  indirect _ _ := rfl
  double hn := absurd hn (by omega)

end Pointers

section Steps
open PointerSlot Program

variable {A : Nat → Prop} {G : Image → Image → Prop}

theorem ensures_nextSector {id : SectorId} {rest : List SectorId}
    {Q : SectorId × List SectorId → Image → Prop} :
    (nextSector (id :: rest)).Ensures A G Q d ↔ Q (id, rest) d := Iff.rfl

theorem ensures_newIndexBlock {id : SectorId} {rest : List SectorId}
    {Q : SectorId × List SectorId → Image → Prop} :
    (newIndexBlock (id :: rest)).Ensures A G Q d ↔ A id.index ∧
      G d (Function.update d id.index (encode IndexBlock.empty)) ∧
      Q (id, rest) (Function.update d id.index (encode IndexBlock.empty)) := by
  simp only [newIndexBlock, nextSector, bind_eq, pure_eq, done_bind, ensures_bind, ensures_store,
    ensures_done]

theorem ensures_setEntry {x id : SectorId} {i : Fin 128} {Q : Unit → Image → Prop} :
    (setEntry x i id).Ensures A G Q d ↔
      A x.index ∧ G d (d.setEntry x i id) ∧ Q () (d.setEntry x i id) := by
  rw [setEntry, Disk.update, bind_eq, ensures_bind, ensures_load, ensures_store, Image.setEntry,
    indexBlock]
  exact and_iff_right_of_imp And.left

variable {data : SectorId} {fresh rest : List SectorId}

/-- What is left when the block at `a` is linked in with `data` and the index blocks `fresh`. -/
structure LinkedIn (r : InodeRecord) (d : Image) (P : Finset SectorId) (a : BlockAddress)
    (data : SectorId) (fresh rest : List SectorId) (x : InodeRecord × List SectorId)
    (d' : Image) : Prop where
  rest_eq : x.2 = rest
  filled : (newAt a).map (x.1.pointerAt d') = (data :: fresh).map some
  growing : Growing a.toIndex r d (fun s => s.first < a.toIndex + 1)
    (P ∪ (data :: fresh).toFinset) x.1 d'

theorem LinkedIn.of_growing {a : BlockAddress} {dom : PointerSlot → Prop} {P' : Finset SectorId}
    (h : Growing a.toIndex r d dom P' r' d')
    (hfilled : (newAt a).map (r'.pointerAt d') = (data :: fresh).map some)
    (hdom : ∀ s, dom s ↔ s ∈ newAt a ∨ s.first < a.toIndex)
    (hP : P' = P ∪ (data :: fresh).toFinset) :
    LinkedIn r d P a data fresh rest (r', rest) d' where
  rest_eq := rfl
  filled := hfilled
  growing := by
    refine h.congr (fun s => (hdom s).trans ?_) hP
    rw [mem_newAt]
    omega

/-- The data pointer comes in last, behind those to the new index blocks. -/
theorem map_newAt_update {a : BlockAddress} {look : PointerSlot → Option SectorId}
    (data : SectorId) (hindex : (newAt a).tail.map look = fresh.map some) :
    (newAt a).map (Function.update look (.data a) (some data)) = (data :: fresh).map some := by
  obtain ⟨hcons, hnot⟩ := newAt_eq_cons a
  rw [hcons, List.map_cons, List.map_cons, Function.update_self, ← hindex]
  refine congrArg _ (List.map_congr_left fun s hs => Function.update_of_ne ?_ _ _)
  rintro rfl
  exact hnot hs

/-- The last step of linking: the data pointer comes into its index block. -/
theorem ensures_linkEntry {a : BlockAddress} {dom : PointerSlot → Prop} {P' : Finset SectorId}
    {p : IndexSlot} {x : SectorId} {inner : Fin 128} (h : Growing a.toIndex r d dom P' r' d')
    (hx : r'.indexAt d' p = some x)
    (hset : r'.pointerAt (d'.setEntry x inner data) =
      Function.update (r'.pointerAt d') (.data a) (some data))
    (hfree : ¬ dom (.data a)) (hdata : data ∉ P') (hA : A x.index)
    (hindex : (newAt a).tail.map (r'.pointerAt d') = fresh.map some)
    (hdom : ∀ s, s = .data a ∨ dom s ↔ s ∈ newAt a ∨ s.first < a.toIndex)
    (hP : insert data P' = P ∪ (data :: fresh).toFinset) :
    (setEntry x inner data).Ensures A (fun _ d₂ => Preserves a.toIndex r d d₂)
      (fun _ => LinkedIn r d P a data fresh rest (r', rest)) d' := by
  have g := h.inIndexBlock hx (Nat.le_refl _) hset hfree hdata
  have hfilled := map_newAt_update data hindex
  rw [← hset] at hfilled
  exact ensures_setEntry.2 ⟨hA, g.preserves, .of_growing g hfilled hdom hP⟩

/-- A cleared index block comes into the upper one, and the data pointer comes into it. -/
theorem ensures_linkLeaf {outer inner : Fin 128} {dom : PointerSlot → Prop} {P' : Finset SectorId}
    {x y : SectorId}
    (h : Growing (BlockAddress.toIndex (.doubleIndirect outer inner)) r d dom P' r' d')
    (hx : r'.doubleIndirect = some x) (hy : y ∉ P') (hempty : indexBlock d' y = IndexBlock.empty)
    (hentry : (index (.doubleEntry outer)).first =
      BlockAddress.toIndex (.doubleIndirect outer inner))
    (hunset : ¬ dom (index (.doubleEntry outer)))
    (hfree : ¬ dom (.data (.doubleIndirect outer inner))) (hdata : data ∉ insert y P')
    (hA : A x.index) (hA' : A y.index)
    (hindex : (newAt (.doubleIndirect outer inner)).tail.map
      (Function.update (r'.pointerAt d') (index (.doubleEntry outer)) (some y)) = fresh.map some)
    (hdom : ∀ s, s = .data (.doubleIndirect outer inner) ∨ s = index (.doubleEntry outer) ∨ dom s ↔
      s ∈ newAt (.doubleIndirect outer inner) ∨
        s.first < BlockAddress.toIndex (.doubleIndirect outer inner))
    (hP : insert data (insert y P') = P ∪ (data :: fresh).toFinset) :
    (setEntry x outer y).Ensures A
      (fun _ d₂ => Preserves (BlockAddress.toIndex (.doubleIndirect outer inner)) r d d₂)
      (fun _ e => (setEntry y inner data).Ensures A
        (fun _ d₂ => Preserves (BlockAddress.toIndex (.doubleIndirect outer inner)) r d d₂)
        (fun _ => LinkedIn r d P (.doubleIndirect outer inner) data fresh rest (r', rest)) e) d' := by
  have hat : r'.pointerAt d' (.index .double) = some x := hx
  have hyx : y ≠ x := by
    rintro rfl
    exact hy (h.linked.mem hat)
  have hupper := pointerAt_setDoubleEntry h.index_injective outer hx (h.linked.eq_none hunset) hyx
    hempty
  have g := h.inIndexBlock (p := .double) hx hentry.ge hupper hunset hy
  rw [← hupper] at hindex
  have hleaf := congrFun hupper (.index (.doubleEntry outer))
  rw [Function.update_self] at hleaf
  have hfree' : ¬ (PointerSlot.data (.doubleIndirect outer inner) = index (.doubleEntry outer) ∨
      dom (.data (.doubleIndirect outer inner))) := by
    rintro (he | hd)
    · cases he
    · exact hfree hd
  exact ensures_setEntry.2 ⟨hA, g.preserves, ensures_linkEntry g (p := .doubleEntry outer) hleaf
    (pointerAt_setDoubleLeaf g.index_injective inner hleaf) hfree' hdata hA' hindex hdom hP⟩

theorem LinkedIn.dataAt_eq {a : BlockAddress} {x : InodeRecord × List SectorId}
    (h : LinkedIn r d P a data fresh rest x d') : x.1.dataAt d' a = some data := by
  have hfilled := h.filled
  rw [(newAt_eq_cons a).1, List.map_cons, List.map_cons] at hfilled
  exact (List.cons.inj hfilled).1

/-- Linking the block at `a` in takes exactly the index blocks `fresh`. It touches no other sectors
than these and those of `X`. -/
def Links (r : InodeRecord) (d : Image) (P X : Finset SectorId) (data : SectorId)
    (fresh rest : List SectorId) (a : BlockAddress) : Prop :=
  (r.link data (fresh ++ rest) a).Ensures (Owned (X ∪ fresh.toFinset))
    (fun _ d₂ => Preserves a.toIndex r d d₂) (LinkedIn r d P a data fresh rest) d

section Link

variable {X : Finset SectorId} (hX : ∀ p id, r.indexAt d p = some id → id ∈ X)
  (hdata : data ∉ P) (hfresh : ∀ x ∈ fresh, x ∉ P) (hnodup : (data :: fresh).Nodup)

include hdata

theorem links_direct {i : Fin 100}
    (h : Linked (r.pointerAt d) (fun s => s.first < BlockAddress.toIndex (.direct i)) P)
    (hlength : fresh.length + 1 = (newAt (.direct i)).length) :
    Links r d P X data fresh rest (.direct i) := by
  obtain rfl : fresh = [] := List.length_eq_zero_iff.1 (Nat.add_right_cancel hlength)
  have g := (Growing.start h).inRecord (Extends.setDirect i) (pointerAt_setDirect i) (by simp)
    hdata
  refine LinkedIn.of_growing g (by simp [newAt_direct]) (fun s => ?_) (by simp)
  rw [newAt_direct, List.mem_singleton]

include hX

theorem links_indirect_of_ne {o : Fin 24} {inner : Fin 128} (hi : inner.val ≠ 0)
    (h : Linked (r.pointerAt d) (fun s => s.first < BlockAddress.toIndex (.indirect o inner)) P)
    (hlength : fresh.length + 1 = (newAt (.indirect o inner)).length) :
    Links r d P X data fresh rest (.indirect o inner) := by
  have g := Growing.start (n := BlockAddress.toIndex (.indirect o inner)) h
  have hz : inner ≠ 0 := fun he => hi (congrArg Fin.val he)
  rw [newAt_indirect_of_ne hi] at hlength
  obtain rfl := List.length_eq_zero_iff.1 (Nat.add_right_cancel hlength)
  obtain ⟨x, hx⟩ := h.exists_some (s := .index (.indirect o))
    (by rw [first_index, IndexSlot.first, BlockAddress.toIndex]; omega)
  simp only [Links, link, if_neg hz, bind_eq, pure_eq, ensures_bind, List.nil_append, ensures_done,
    ensures_getOrBreach]
  refine ⟨x, hx, ?_⟩
  refine ensures_linkEntry g (p := .indirect o) hx
    (pointerAt_setIndirectEntry g.index_injective inner hx) (by simp) hdata
    (owned_of_mem (by simp [hX (.indirect o) x hx])) (by simp [newAt_indirect_of_ne hi]) (fun s => ?_) (by simp)
  rw [newAt_indirect_of_ne hi, List.mem_singleton]

theorem links_doubleIndirect_of_ne {outer inner : Fin 128} (hi : inner.val ≠ 0)
    (h : Linked (r.pointerAt d)
      (fun s => s.first < BlockAddress.toIndex (.doubleIndirect outer inner)) P)
    (hlength : fresh.length + 1 = (newAt (.doubleIndirect outer inner)).length) :
    Links r d P X data fresh rest (.doubleIndirect outer inner) := by
  have g := Growing.start (n := BlockAddress.toIndex (.doubleIndirect outer inner)) h
  have hz : inner ≠ 0 := fun he => hi (congrArg Fin.val he)
  have hnot : ¬ (outer = 0 ∧ inner = 0) := fun he => hz he.2
  rw [newAt_doubleIndirect_of_ne hi] at hlength
  obtain rfl := List.length_eq_zero_iff.1 (Nat.add_right_cancel hlength)
  obtain ⟨x, hx⟩ := h.exists_some (s := .index .double)
    (by rw [first_index, IndexSlot.first, BlockAddress.toIndex]; omega)
  obtain ⟨y, hy⟩ := h.exists_some (s := .index (.doubleEntry outer))
    (by rw [first_index, IndexSlot.first, BlockAddress.toIndex]; omega)
  have hslot : slot (decode (d x.index) : IndexBlock).pointers outer = some y := by
    have hx' : r.doubleIndirect = some x := hx
    rw [pointerAt_index, indexAt_doubleEntry, hx', entry_some] at hy
    exact hy
  simp only [Links, link, if_neg hz, if_neg hnot, bind_eq, pure_eq, ensures_bind, List.nil_append,
    ensures_done, ensures_getOrBreach, ensures_load]
  refine ⟨x, hx, owned_of_mem (by simp [hX .double x hx]), y, hslot, ?_⟩
  refine ensures_linkEntry g (p := .doubleEntry outer) hy
    (pointerAt_setDoubleLeaf g.index_injective inner hy) (by simp) hdata
    (owned_of_mem (by simp [hX (.doubleEntry outer) y hy])) (by simp [newAt_doubleIndirect_of_ne hi]) (fun s => ?_)
    (by simp)
  rw [newAt_doubleIndirect_of_ne hi, List.mem_singleton]

include hfresh hnodup

omit hX in
theorem links_indirect_zero {o : Fin 24} {inner : Fin 128} (hi : inner.val = 0)
    (h : Linked (r.pointerAt d) (fun s => s.first < BlockAddress.toIndex (.indirect o inner)) P)
    (hlength : fresh.length + 1 = (newAt (.indirect o inner)).length) :
    Links r d P X data fresh rest (.indirect o inner) := by
  have g := Growing.start (n := BlockAddress.toIndex (.indirect o inner)) h
  have hz : inner = 0 := Fin.ext hi
  rw [newAt_indirect_zero hi] at hlength
  obtain ⟨x, rfl⟩ := List.length_eq_one_iff.1 (Nat.add_right_cancel hlength)
  have hx : x ∉ P := hfresh x (by simp)
  have hne : data ≠ x := by simpa using hnodup
  have hfirst : (index (.indirect o)).first = BlockAddress.toIndex (.indirect o inner) :=
    mem_newAt.1 (by simp [newAt_indirect_zero hi])
  have hfree : slot r.indirect o = none := h.eq_none (s := .index (.indirect o)) (by omega)
  have g₁ := g.write (s := encode IndexBlock.empty) hx
  have g₂ := g₁.inRecord (Extends.setIndirect hfirst.ge)
    (pointerAt_setIndirect o hfree (indexBlock_update_self _)) (by omega) hx
  have hslot : slot (setSlot r.indirect o (some x)) o = some x := slot_setSlot_self _ _ _
  simp only [Links, link, if_pos hz, bind_eq, pure_eq, ensures_bind, List.cons_append,
    List.nil_append, ensures_newIndexBlock, ensures_done, ensures_getOrBreach]
  refine ⟨owned_of_mem (by simp), g₁.preserves, x, hslot, ?_⟩
  refine ensures_linkEntry g₂ (p := .indirect o) hslot
    (pointerAt_setIndirectEntry g₂.index_injective inner hslot) (by simp) (by simp [hne, hdata])
    (owned_of_mem (by simp)) (by simp [newAt_indirect_zero hi]) (fun s => ?_) (by simp)
  rw [newAt_indirect_zero hi]
  simp [or_assoc]

theorem links_doubleIndirect_zero {outer inner : Fin 128} (hi : inner.val = 0)
    (ho : outer.val ≠ 0)
    (h : Linked (r.pointerAt d)
      (fun s => s.first < BlockAddress.toIndex (.doubleIndirect outer inner)) P)
    (hlength : fresh.length + 1 = (newAt (.doubleIndirect outer inner)).length) :
    Links r d P X data fresh rest (.doubleIndirect outer inner) := by
  have g := Growing.start (n := BlockAddress.toIndex (.doubleIndirect outer inner)) h
  have hz : inner = 0 := Fin.ext hi
  have hnot : ¬ (outer = 0 ∧ inner = 0) := fun he => ho (congrArg Fin.val he.1)
  have hentry : (index (.doubleEntry outer)).first =
      BlockAddress.toIndex (.doubleIndirect outer inner) :=
    mem_newAt.1 (by simp [newAt_doubleIndirect_zero hi ho])
  rw [newAt_doubleIndirect_zero hi ho] at hlength
  obtain ⟨y, rfl⟩ := List.length_eq_one_iff.1 (Nat.add_right_cancel hlength)
  have hne : data ≠ y := by simpa using hnodup
  have hy : y ∉ P := hfresh y (by simp)
  obtain ⟨x, hx⟩ := h.exists_some (s := .index .double)
    (by rw [first_index, IndexSlot.first, BlockAddress.toIndex]; omega)
  have g₁ := g.write (s := encode IndexBlock.empty) hy
  simp only [Links, link, if_pos hz, if_neg hnot, bind_eq, pure_eq, ensures_bind,
    List.cons_append, List.nil_append, ensures_newIndexBlock, ensures_done, ensures_getOrBreach]
  refine ⟨x, hx, owned_of_mem (by simp), g₁.preserves, ?_⟩
  refine ensures_linkLeaf g₁ hx hy (indexBlock_update_self _) hentry hentry.not_lt (by simp)
    (by simp [hne, hdata]) (owned_of_mem (by simp [hX .double x hx])) (owned_of_mem (by simp))
    (by simp [newAt_doubleIndirect_zero hi ho]) (fun s => ?_) (by simp)
  rw [newAt_doubleIndirect_zero hi ho]
  simp [or_assoc]

omit hX in
theorem links_doubleIndirect_first {outer inner : Fin 128} (hi : inner.val = 0)
    (ho : outer.val = 0)
    (h : Linked (r.pointerAt d)
      (fun s => s.first < BlockAddress.toIndex (.doubleIndirect outer inner)) P)
    (hlength : fresh.length + 1 = (newAt (.doubleIndirect outer inner)).length) :
    Links r d P X data fresh rest (.doubleIndirect outer inner) := by
  have g := Growing.start (n := BlockAddress.toIndex (.doubleIndirect outer inner)) h
  have hz : inner = 0 := Fin.ext hi
  have hboth : outer = 0 ∧ inner = 0 := ⟨Fin.ext ho, hz⟩
  have hdouble : (index .double).first = BlockAddress.toIndex (.doubleIndirect outer inner) :=
    mem_newAt.1 (by simp [newAt_doubleIndirect_first hi ho])
  have hentry : (index (.doubleEntry outer)).first =
      BlockAddress.toIndex (.doubleIndirect outer inner) :=
    mem_newAt.1 (by simp [newAt_doubleIndirect_first hi ho])
  rw [newAt_doubleIndirect_first hi ho] at hlength
  obtain ⟨x, y, rfl⟩ := List.length_eq_two.1 (Nat.add_right_cancel hlength)
  obtain ⟨⟨hdx, hdy⟩, hxy⟩ : (data ≠ x ∧ data ≠ y) ∧ x ≠ y := by simpa using hnodup
  have hx : x ∉ P := hfresh x (by simp)
  have hy : y ∉ insert x P := by simp [hfresh y, hxy.symm]
  have hfree : r.doubleIndirect = none := h.eq_none (s := .index .double) (by omega)
  have g₁ := g.write (s := encode IndexBlock.empty) hx
  have g₂ := g₁.inRecord (Extends.setDouble hdouble.ge)
    (pointerAt_setDouble hfree (indexBlock_update_self _)) (by omega) hx
  have g₃ := g₂.write (s := encode IndexBlock.empty) hy
  have hunset : ¬ (index (.doubleEntry outer) = index .double ∨
      (index (.doubleEntry outer)).first <
        BlockAddress.toIndex (.doubleIndirect outer inner)) := by
    simp only [reduceCtorEq, index.injEq, false_or]
    exact hentry.not_lt
  simp only [Links, link, if_pos hz, if_pos hboth, bind_eq, pure_eq, ensures_bind, List.cons_append,
    List.nil_append, ensures_newIndexBlock, ensures_done, ensures_getOrBreach]
  refine ⟨owned_of_mem (by simp), g₁.preserves, x, rfl, owned_of_mem (by simp), g₃.preserves, ?_⟩
  refine ensures_linkLeaf g₃ rfl hy (indexBlock_update_self _) hentry hunset (by simp)
    (by simp [hdx, hdy, hdata]) (owned_of_mem (by simp)) (owned_of_mem (by simp))
    (by simp [newAt_doubleIndirect_first hi ho]) (fun s => ?_) (by simp [Finset.insert_comm x])
  rw [newAt_doubleIndirect_first hi ho]
  simp [or_assoc, or_left_comm]

variable (rest) in
/-- A block is linked in with its own new index blocks. -/
theorem links {a : BlockAddress} (h : Linked (r.pointerAt d) (fun s => s.first < a.toIndex) P)
    (hlength : fresh.length + 1 = (newAt a).length) : Links r d P X data fresh rest a := by
  cases a with
  | direct i => exact links_direct hdata h hlength
  | indirect o inner =>
    by_cases hi : inner.val = 0
    · exact links_indirect_zero hdata hfresh hnodup hi h hlength
    · exact links_indirect_of_ne hX hdata hi h hlength
  | doubleIndirect outer inner =>
    by_cases hi : inner.val = 0
    · by_cases ho : outer.val = 0
      · exact links_doubleIndirect_first hdata hfresh hnodup hi ho h hlength
      · exact links_doubleIndirect_zero hX hdata hfresh hnodup hi ho h hlength
    · exact links_doubleIndirect_of_ne hX hdata hi h hlength

end Link

/-- A block is added: its data sector is all zero. Besides the new sectors only index blocks are
touched. -/
theorem growBlock_within {a : BlockAddress} {new : List SectorId} {X : Finset SectorId}
    (h : Linked (r.pointerAt d) (fun s => s.first < a.toIndex) P) (hXP : X ⊆ P)
    (hX : ∀ p id, r.indexAt d p = some id → id ∈ X) (hnew : ∀ x ∈ new, x ∉ P)
    (hnodup : new.Nodup) (hlength : new.length = (newAt a).length) :
    (r.growBlock a.toIndex (new ++ rest)).Ensures (Owned (X ∪ new.toFinset))
      (fun _ d₂ => Preserves a.toIndex r d d₂)
      (fun x d' => x.2 = rest ∧
        Growing a.toIndex r d (fun s => s.first < a.toIndex + 1) (P ∪ new.toFinset) x.1 d' ∧
        (newAt a).map (x.1.pointerAt d') = new.map some ∧
        ∃ id, x.1.dataAt d' a = some id ∧ d' id.index = Sector.zero) d := by
  cases new with
  | nil =>
    have hpos := List.length_pos_of_mem (data_mem_newAt.2 (rfl : a.toIndex = a.toIndex))
    rw [← hlength] at hpos
    exact absurd hpos (Nat.lt_irrefl 0)
  | cons data fresh =>
    have hdata : data ∉ P := hnew data (by simp)
    have hfresh : ∀ x ∈ fresh, x ∉ P := fun x hx => hnew x (by simp [hx])
    have g := (Growing.start (n := a.toIndex) h).write (s := Sector.zero) hdata
    have hX' (p : IndexSlot) (id : SectorId)
        (hp : r.indexAt (Function.update d data.index Sector.zero) p = some id) : id ∈ X := by
      have hkept := congrFun (pointerAt_update_of_ne (s := Sector.zero) fun p =>
        h.ne_some (s := .index p) hdata) (.index p)
      exact hX p id (hkept.symm.trans hp)
    have hlink := Ensures.frame (links rest hX' hdata hfresh hnodup g.linked hlength)
    have hsub : X ∪ fresh.toFinset ⊆ X ∪ (data :: fresh).toFinset := by
      rw [List.toFinset_cons, Finset.union_insert]
      exact Finset.subset_insert _ _
    have hout : ¬ Owned (X ∪ fresh.toFinset) data.index := by
      apply not_owned_of_not_mem
      simp only [Finset.mem_union, List.mem_toFinset, not_or]
      exact ⟨fun hx => hdata (hXP hx), (List.nodup_cons.1 hnodup).1⟩
    simp only [growBlock, List.cons_append, bind_eq, ensures_bind, ensures_nextSector,
      ensures_clear, ensures_getOrBreach, BlockAddress.ofIndex?_toIndex]
    refine ⟨owned_of_mem (by simp), g.preserves, a, rfl, ?_⟩
    refine hlink.mono (fun _ hn => hn.mono hsub) (fun _ d₂ hg => g.preserves.trans hg.1) ?_
    rintro x d' ⟨hx, hkeep⟩
    have hzero : d' data.index = Sector.zero := by rw [hkeep _ hout, Function.update_self]
    exact ⟨hx.rest_eq, ⟨hx.growing.linked, hx.growing.extension,
      g.preserves.trans hx.growing.preserves⟩, hx.filled, data, hx.dataAt_eq, hzero⟩

/-- A block is added: its data sector is all zero. -/
theorem growBlock_ensures {a : BlockAddress} {new : List SectorId}
    (h : Linked (r.pointerAt d) (fun s => s.first < a.toIndex) P) (hnew : ∀ x ∈ new, x ∉ P)
    (hnodup : new.Nodup) (hlength : new.length = (newAt a).length) :
    (r.growBlock a.toIndex (new ++ rest)).Ensures (Owned (P ∪ new.toFinset))
      (fun _ d₂ => Preserves a.toIndex r d d₂)
      (fun x d' => x.2 = rest ∧
        Growing a.toIndex r d (fun s => s.first < a.toIndex + 1) (P ∪ new.toFinset) x.1 d' ∧
        (newAt a).map (x.1.pointerAt d') = new.map some ∧
        ∃ id, x.1.dataAt d' a = some id ∧ d' id.index = Sector.zero) d :=
  growBlock_within h Finset.Subset.rfl (fun p _ hp => h.mem (s := .index p) hp) hnew hnodup hlength

/-- The sectors that the first new block takes, and those that are left for the others. -/
theorem exists_newAt_append {a : BlockAddress} {count : Nat} {obtained : List SectorId}
    (hobtained : ∀ x ∈ obtained, x ∉ P) (hnodup : obtained.Nodup)
    (hlength : totalSectors (a.toIndex + (count + 1)) = totalSectors a.toIndex + obtained.length) :
    ∃ new rest, obtained = new ++ rest ∧ new.length = (newAt a).length ∧ (∀ x ∈ new, x ∉ P) ∧
      new.Nodup ∧ (∀ x ∈ rest, x ∉ P ∪ new.toFinset) ∧ rest.Nodup ∧
      totalSectors (a.toIndex + 1 + count) = totalSectors (a.toIndex + 1) + rest.length := by
  have hone := length_newAt a
  have hmono := totalSectors_mono (show a.toIndex + 1 ≤ a.toIndex + (count + 1) by omega)
  obtain ⟨new, rest, rfl, hnew⟩ : ∃ new rest, obtained = new ++ rest ∧
      new.length = (newAt a).length :=
    ⟨obtained.take (newAt a).length, obtained.drop (newAt a).length, by simp, by simp; omega⟩
  obtain ⟨hnewNodup, hrestNodup, hapart⟩ := List.nodup_append'.1 hnodup
  rw [List.length_append] at hlength
  refine ⟨new, rest, rfl, hnew, fun x hx => hobtained x (List.mem_append_left rest hx), hnewNodup,
    fun x hx => ?_, hrestNodup, ?_⟩
  · simp only [Finset.mem_union, List.mem_toFinset, not_or]
    exact ⟨hobtained x (List.mem_append_right new hx), fun hn => hapart hn hx⟩
  · rw [show a.toIndex + 1 + count = a.toIndex + (count + 1) by omega]
    omega

/-- Growth uses up the sectors that were counted for it, in order, and every new block is all
zero. Besides these sectors only index blocks that were there before are touched. -/
theorem grow_within {first : Nat} (count : Nat) {obtained : List SectorId} {X : Finset SectorId}
    (h : Linked (r.pointerAt d) (fun s => s.first < first) P) (hXP : X ⊆ P)
    (hX : ∀ p id, r.indexAt d p = some id → id ∈ X) (hcount : first + count ≤ maxBlocks)
    (hobtained : ∀ x ∈ obtained, x ∉ P) (hnodup : obtained.Nodup)
    (hlength : totalSectors (first + count) = totalSectors first + obtained.length) :
    (r.grow first obtained count).Ensures (Owned (X ∪ obtained.toFinset))
      (fun _ d₂ => Preserves first r d d₂)
      (fun x d' => x.2 = [] ∧
        Growing first r d (fun s => s.first < first + count) (P ∪ obtained.toFinset) x.1 d' ∧
        (newIn first count).map (x.1.pointerAt d') = obtained.map some ∧
        ∀ a : BlockAddress, first ≤ a.toIndex → a.toIndex < first + count →
          ∃ id, x.1.dataAt d' a = some id ∧ d' id.index = Sector.zero) d := by
  induction count generalizing first r d P X obtained with
  | zero =>
    obtain rfl : obtained = [] := List.length_eq_zero_iff.1 (by simpa using hlength)
    exact ⟨rfl, (Growing.start h).congr (fun _ => Iff.rfl) (by simp), rfl,
      fun a h₁ h₂ => by omega⟩
  | succ count ih =>
    obtain ⟨a, rfl⟩ := BlockAddress.exists_toIndex_eq (show first < maxBlocks by omega)
    obtain ⟨new, rest, rfl, hnew, hfresh, hnewNodup, hrest, hrestNodup, hlengthRest⟩ :=
      exists_newAt_append hobtained hnodup hlength
    have hset (F : Finset SectorId) :
        F ∪ new.toFinset ∪ rest.toFinset = F ∪ (new ++ rest).toFinset := by
      rw [List.toFinset_append, Finset.union_assoc]
    rw [grow, bind_eq, ensures_bind]
    refine (growBlock_within h hXP hX hfresh hnewNodup hnew).mono
      (fun _ hn => hn.mono (hset X ▸ Finset.subset_union_left)) (fun _ _ hg => hg) ?_
    rintro ⟨r₁, left⟩ d₁ ⟨hleft, g, hfilled, id, hid, hzero⟩
    obtain rfl : left = rest := hleft
    have hstep := ih g.linked (Finset.union_subset_union_left hXP)
      (fun _ _ hp => g.index_mem hfilled hX hp) (by omega) hrest hrestNodup hlengthRest
    rw [hset, hset] at hstep
    refine hstep.mono (fun _ hn => hn) (fun _ _ hg => ?_) ?_
    · exact g.preserves.trans ((hg.mono (Nat.le_succ _)).of_extends g.extension)
    · rintro ⟨r₂, _⟩ d₂ ⟨hnone, g', hrestFilled, hrestZero⟩
      refine ⟨hnone, ⟨g'.linked.congr fun s => by omega,
        g.extension.trans g'.extension (Nat.le_succ _),
        g.preserves.trans ((g'.preserves.mono (Nat.le_succ _)).of_extends g.extension)⟩, ?_, ?_⟩
      · rw [newIn_toIndex_succ, List.map_append, List.map_append, hrestFilled, ← hfilled]
        refine congrArg (· ++ _) (List.map_congr_left fun s hs => g'.pointerAt_eq ?_)
        rw [mem_newAt.1 hs]
        exact Nat.lt_succ_self _
      · intro b hb₁ hb₂
        by_cases hb : a.toIndex + 1 ≤ b.toIndex
        · exact hrestZero b hb (by omega)
        · obtain rfl : b = a := BlockAddress.toIndex_injective (by omega)
          have hlt : b.toIndex < b.toIndex + 1 := Nat.lt_succ_self _
          exact ⟨id, (g'.pointerAt_eq (u := .data b) hlt).trans hid,
            (g'.preserves.content hlt hid).trans hzero⟩

/-- Growth uses up the sectors that were counted for it, in order, and every new block is all
zero. -/
theorem grow_ensures {first : Nat} (count : Nat) {obtained : List SectorId}
    (h : Linked (r.pointerAt d) (fun s => s.first < first) P) (hcount : first + count ≤ maxBlocks)
    (hobtained : ∀ x ∈ obtained, x ∉ P) (hnodup : obtained.Nodup)
    (hlength : totalSectors (first + count) = totalSectors first + obtained.length) :
    (r.grow first obtained count).Ensures (Owned (P ∪ obtained.toFinset))
      (fun _ d₂ => Preserves first r d d₂)
      (fun x d' =>
        Growing first r d (fun s => s.first < first + count) (P ∪ obtained.toFinset) x.1 d' ∧
        (newIn first count).map (x.1.pointerAt d') = obtained.map some ∧
        ∀ a : BlockAddress, first ≤ a.toIndex → a.toIndex < first + count →
          ∃ id, x.1.dataAt d' a = some id ∧ d' id.index = Sector.zero) d :=
  (grow_within count h Finset.Subset.rfl (fun p _ hp => h.mem (s := .index p) hp) hcount hobtained
    hnodup hlength).imp fun _ _ hx => hx.2

end Steps
end InodeRecord

end InodeVolume

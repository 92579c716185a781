import InodeVolume.Inode.Creation
import InodeVolume.Proofs.Inode.Stored
import InodeVolume.Proofs.Program.Allocation

/-!
Creation of an inode. It leaves an inode of zero bytes, or the caller with what it owned before.
-/
namespace InodeVolume

theorem totalSectors_lt_listLimit {n : Nat} (h : n ≤ maxBlocks) :
    totalSectors n < Store.listLimit :=
  Nat.lt_of_le_of_lt (totalSectors_mono h) (by decide)

theorem le_maxFileSize_of_dataBlocks {n : Nat} (h : dataBlocks n ≤ maxBlocks) :
    n ≤ maxFileSize := by
  simp only [maxFileSize, dataBlocks, maxBlocks] at *
  omega

theorem lt_of_dataBlocks {n : Nat} (h : maxBlocks < dataBlocks n) : maxFileSize < n := by
  simp only [maxFileSize, dataBlocks, maxBlocks] at *
  omega

namespace InodeRecord

variable {d : Image}

theorem pointerAt_fresh (kind : InodeKind) (s : PointerSlot) :
    (fresh kind).pointerAt d s = none := by
  cases s with
  | index p => cases p <;> simp [fresh, slot_eq_getElem]
  | data a => cases a <;> simp [fresh, slot_eq_getElem]

theorem linked_fresh (kind : InodeKind) :
    Linked ((fresh kind).pointerAt d) (fun s => s.first < 0) ∅ where
  isSome_iff s := by simp [pointerAt_fresh]
  injective h := by simp [pointerAt_fresh] at h
  mem_iff x := by simp [pointerAt_fresh]

end InodeRecord

/-- The sector holds an inode of zero bytes. -/
structure Blank (d : Image) (s : SectorId) (length : Nat) (kind : InodeKind)
    (P : Finset SectorId) : Prop where
  stored : Stored d s (recordAt d s) P
  size : (recordAt d s).size = length
  kind : (recordAt d s).kind = kind
  byte (p : Nat) : (recordAt d s).byteAt d p = 0

namespace Store

open Program

variable {d : Image} {s : SectorId} {length : Nat} {kind : InodeKind}

/-- No demands on what happens in between. -/
def anyStep : Finset SectorId → Image → Image → Prop := fun _ _ _ => True

theorem lenient_anyStep (K : Finset SectorId) (d : Image) : Lenient anyStep K d :=
  fun _ _ _ _ _ _ => trivial

/-- Growth of a fresh record makes a blank inode, once the record is written. -/
theorem grow_blank (kind : InodeKind) (d : Image) {ids : List SectorId}
    (hlength : length ≤ maxFileSize) (hnodup : ids.Nodup)
    (hcount : ids.length = totalSectors (dataBlocks length)) (hs : s ∉ ids.toFinset) :
    ((InodeRecord.fresh kind).grow 0 ids (dataBlocks length)).Ensures (Owned ids.toFinset)
      (fun _ _ => True)
      (fun x d' => Blank (Function.update d' s.index (encode (x.1.withLength length))) s length kind
        ids.toFinset) d := by
  have hblocks := dataBlocks_le hlength
  have hgrow := InodeRecord.grow_ensures (dataBlocks length)
    (InodeRecord.linked_fresh kind (d := d)) (by simpa using hblocks) (by simp) hnodup
    (by simpa [totalSectors] using hcount.symm)
  simp only [Finset.empty_union, Nat.zero_add] at hgrow
  refine hgrow.mono (fun _ hn => hn) (fun _ _ _ => trivial) ?_
  rintro ⟨r, _⟩ d₂ ⟨g, -, hzero⟩
  have hbyte (p : Nat) : r.byteAt d₂ p = 0 := by
    refine InodeRecord.byteAt_of_zero fun a _ id hid => ?_
    have ha := (g.linked.isSome_iff (.data a)).1 (by rw [r.pointerAt_data, hid]; rfl)
    obtain ⟨x, hx, hxz⟩ := hzero a (Nat.zero_le _) ha
    rw [hx, Option.some.injEq] at hid
    rw [← hid, hxz]
  have hvalid : r.isValid = true := by
    rw [InodeRecord.isValid_of_extends g.extension]
    rfl
  obtain ⟨hstored, hsame⟩ := Stored.of_sync (s := s) hvalid hlength g.linked
    (by rw [List.toFinset_card_of_nodup hnodup, hcount]) hs fun p _ => hbyte p
  have hrecord := hstored.onDisk
  exact {
    stored := by rwa [hrecord]
    size := by rw [hrecord, InodeRecord.size_withLength hlength]
    kind := by
      rw [hrecord, InodeRecord.kind_withLength, InodeRecord.kind_of_extends g.extension]
      exact InodeKind.ofWord_toWord kind
    byte := fun p => by rw [hrecord, hsame, hbyte] }

theorem lt_word_of_le (hlength : length ≤ maxFileSize) : length < 0x100000000 := by
  simp only [maxFileSize] at hlength
  omega

theorem createAt_secures : (createAt s length kind).Secures anyStep
    (fun x d' F' => match x with
      | .error e => F' = {s} ∧ (e = .noSpace ∨ e = .tooLarge length ∧ maxFileSize < length)
      | .ok () => ∃ P, F' = insert s P ∧ Blank d' s length kind P) d {s} := by
  rw [createAt]
  by_cases hle : maxBlocks < dataBlocks length
  · rw [if_pos hle]
    exact ⟨rfl, Or.inr ⟨rfl, lt_of_dataBlocks hle⟩⟩
  · rw [if_neg hle]
    have hblocks : dataBlocks length ≤ maxBlocks := Nat.le_of_not_lt hle
    have hlength : length ≤ maxFileSize := le_maxFileSize_of_dataBlocks hblocks
    rw [bind_eq, secures_bind]
    refine (allocateMany_secures (totalSectors_lt_listLimit hblocks) (lenient_anyStep {s} d)).imp ?_
    rintro (e | ids) d₁ F₁ ⟨-, hobtained⟩
    · exact ⟨hobtained.2, Or.inl hobtained.1⟩
    · obtain ⟨hnodup, hcount, hnew, rfl⟩ := hobtained
      have hs : s ∉ ids.toFinset := fun h => hnew s (List.mem_toFinset.1 h) (by simp)
      have hset : insert s ids.toFinset = {s} ∪ ids.toFinset := rfl
      simp only [liftM_eq, bind_eq, pure_eq, secures_bind, secures_onStore]
      refine (grow_blank kind d₁ hlength hnodup hcount hs).mono
        (fun _ hn => hn.mono Finset.subset_union_right) (fun _ _ _ => trivial) ?_
      rintro ⟨r, _⟩ d₂ hblank
      simp only [secures_word, ensures_store, ensures_note, secures_done]
      exact ⟨lt_word_of_le hlength, owned_of_mem (by simp), trivial, ids.toFinset, hset.symm,
        hblank⟩

theorem create_secures : (create length kind).Secures anyStep
    (fun x d' F' => match x with
      | .error e => F' = ∅ ∧ (e = .noSpace ∨ e = .tooLarge length ∧ maxFileSize < length)
      | .ok s => ∃ P, F' = insert s P ∧ Blank d' s length kind P) d ∅ := by
  rw [create, bind_eq, secures_bind, secures_allocate]
  refine fun d' _ => ⟨fun _ _ => trivial, ⟨rfl, Or.inl rfl⟩, fun s _ => ?_⟩
  simp only [bind_eq, pure_eq, secures_bind]
  refine createAt_secures.imp ?_
  rintro (e | ⟨⟩) d₁ F₁ h
  · obtain ⟨rfl, he⟩ := h
    simp only [secures_bind, secures_release, secures_done]
    exact ⟨by simp, fun _ _ => ⟨fun _ _ => trivial, by simp, he⟩⟩
  · exact h

end Store

end InodeVolume

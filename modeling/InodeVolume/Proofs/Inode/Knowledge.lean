import InodeVolume.Proofs.Inode.Growth
import InodeVolume.Proofs.Program.Provision

/-!
Growth of a record reads nothing that is not known. Each sector that it takes is written before it
is read: a data sector is cleared, an index block begins empty.
-/
namespace InodeVolume

namespace InodeRecord

open Program

variable {r : InodeRecord} {d : Image} {K : Set Nat} {P : Finset SectorId}
  {data : SectorId} {obtained : List SectorId}

theorem informed_nextSector {Q : SectorId × List SectorId → Image → Set Nat → Prop} :
    (nextSector obtained).Informed Q d K ↔
      ∀ id rest, obtained = id :: rest → Q (id, rest) d K := by
  cases obtained <;> simp [nextSector]

theorem informed_newIndexBlock {Q : SectorId × List SectorId → Image → Set Nat → Prop} :
    (newIndexBlock obtained).Informed Q d K ↔ ∀ id rest, obtained = id :: rest →
      Q (id, rest) (Function.update d id.index (encode IndexBlock.empty)) (insert id.index K) := by
  simp only [newIndexBlock, bind_eq, pure_eq, informed_bind, informed_nextSector, informed_store,
    informed_done]

theorem informed_setEntry {x id : SectorId} {i : Fin 128} {Q : Unit → Image → Set Nat → Prop} :
    (setEntry x i id).Informed Q d K ↔
      x.index ∈ K ∧ Q () (d.setEntry x i id) (insert x.index K) := by
  simp only [setEntry, Disk.update, bind_eq, informed_bind, informed_load, informed_store]
  rfl

/-- Linking a block in reads index blocks of the record, and new ones that it has written. -/
theorem link_informed (hK : ∀ p id, r.indexAt d p = some id → id.index ∈ K) (a : BlockAddress) :
    (r.link data obtained a).Informed
      (fun x _ K' => ∃ taken, obtained = taken ++ x.2 ∧ ∀ y ∈ taken, y.index ∈ K') d K := by
  cases a with
  | direct i => exact ⟨[], rfl, by simp⟩
  | indirect outer inner =>
    by_cases hi : inner = 0
    · simp only [link, if_pos hi, bind_eq, pure_eq, informed_bind, informed_newIndexBlock,
        informed_getOrBreach, informed_setEntry, informed_done]
      rintro index rest rfl x hx
      rw [slot_setSlot_self, Option.some.injEq] at hx
      subst hx
      exact ⟨Set.mem_insert _ _, [index], rfl, by simp⟩
    · simp only [link, if_neg hi, bind_eq, pure_eq, informed_bind, informed_getOrBreach,
        informed_setEntry, informed_done]
      exact fun x hx => ⟨hK (.indirect outer) x hx, [], rfl, by simp⟩
  | doubleIndirect outer inner =>
    by_cases hi : inner = 0
    · by_cases ho : outer = 0
      · simp only [link, if_pos hi, if_pos (And.intro ho hi), bind_eq, pure_eq, informed_bind,
          informed_newIndexBlock, informed_getOrBreach, informed_setEntry, informed_done]
        rintro double rest rfl x hx index rest' rfl
        rw [Option.some.injEq] at hx
        subst hx
        exact ⟨by simp, by simp, [double, index], rfl, by simp⟩
      · have hnot : ¬ (outer = 0 ∧ inner = 0) := fun h => ho h.1
        simp only [link, if_pos hi, if_neg hnot, bind_eq, pure_eq, informed_bind,
          informed_newIndexBlock, informed_getOrBreach, informed_setEntry, informed_done]
        rintro x hx index rest rfl
        have hmem := hK .double x hx
        exact ⟨by simp [hmem], by simp, [index], rfl, by simp⟩
    · have hnot : ¬ (outer = 0 ∧ inner = 0) := fun h => hi h.2
      simp only [link, if_neg hi, if_neg hnot, bind_eq, pure_eq, informed_bind,
        informed_getOrBreach, informed_setEntry, informed_load, informed_done]
      intro x hx
      refine ⟨hK .double x hx, fun y hy => ⟨hK (.doubleEntry outer) y ?_, [], rfl, by simp⟩⟩
      rw [indexAt_doubleEntry, show r.doubleIndirect = some x from hx, entry_some]
      exact hy

/-- A block that is added takes sectors that are known from then on. -/
theorem growBlock_informed {a : BlockAddress} {new rest : List SectorId}
    (h : Linked (r.pointerAt d) (fun s => s.first < a.toIndex) P) (hP : Known K P)
    (hnew : ∀ x ∈ new, x ∉ P) (hnodup : new.Nodup)
    (hlength : new.length = (PointerSlot.newAt a).length) :
    (r.growBlock a.toIndex (new ++ rest)).Informed
      (fun x d' K' => x.2 = rest ∧ Growing a.toIndex r d (fun s => s.first < a.toIndex + 1)
        (P ∪ new.toFinset) x.1 d' ∧ Known K' (P ∪ new.toFinset)) d K := by
  have hinformed : (r.growBlock a.toIndex (new ++ rest)).Informed
      (fun x _ K' => ∃ taken, new ++ rest = taken ++ x.2 ∧ ∀ y ∈ taken, y.index ∈ K') d K := by
    simp only [growBlock, bind_eq, informed_bind, informed_nextSector, informed_clear,
      informed_getOrBreach, BlockAddress.ofIndex?_toIndex, Option.some.injEq, forall_eq']
    intro data left hsplit
    have hdata : data ∈ new := by
      cases new with
      | nil =>
        have hpos := List.length_pos_of_mem (PointerSlot.data_mem_newAt.2 (rfl : a.toIndex = _))
        rw [← hlength] at hpos
        exact absurd hpos (Nat.lt_irrefl 0)
      | cons x new =>
        rw [List.cons_append, List.cons.injEq] at hsplit
        rw [hsplit.1]
        exact List.mem_cons_self
    -- The data sector is none of the index blocks, so clearing it leaves those in place.
    have g := (Growing.start (n := a.toIndex) h).write (s := Sector.zero) (hnew data hdata)
    have hindex : ∀ p id, r.indexAt (Function.update d data.index Sector.zero) p = some id →
        id.index ∈ insert data.index K := fun p id hid =>
      Set.mem_insert_of_mem _ (hP id (g.linked.mem (s := .index p) hid))
    refine (link_informed hindex a).grows.imp fun x d' K' hx => ?_
    obtain ⟨⟨taken, htaken, hknown⟩, hK'⟩ := hx
    refine ⟨data :: taken, by rw [hsplit, htaken, List.cons_append], fun y hy => ?_⟩
    rcases List.mem_cons.1 hy with rfl | hy
    · exact hK' (Set.mem_insert _ _)
    · exact hknown y hy
  refine (hinformed.grows.and (growBlock_ensures h hnew hnodup hlength)).imp fun x d' K' hx => ?_
  obtain ⟨⟨⟨taken, htaken, hknown⟩, hK'⟩, hrest, hgrowing, -⟩ := hx
  rw [hrest, List.append_cancel_right_eq] at htaken
  refine ⟨hrest, hgrowing, known_union.2 ⟨hP.mono hK', fun y hy => ?_⟩⟩
  exact hknown y (htaken ▸ List.mem_toFinset.1 hy)

/-- Growth reads no sector but those of the inode and those that it has written. -/
theorem grow_informed {first : Nat} (count : Nat)
    (h : Linked (r.pointerAt d) (fun s => s.first < first) P) (hP : Known K P)
    (hcount : first + count ≤ maxBlocks) (hobtained : ∀ x ∈ obtained, x ∉ P)
    (hnodup : obtained.Nodup)
    (hlength : totalSectors (first + count) = totalSectors first + obtained.length) :
    (r.grow first obtained count).Informed
      (fun _ _ K' => Known K' (P ∪ obtained.toFinset)) d K := by
  induction count generalizing first r d K P obtained with
  | zero =>
    obtain rfl : obtained = [] := List.length_eq_zero_iff.1 (by simpa using hlength)
    exact known_union.2 ⟨hP, by simp [Known]⟩
  | succ count ih =>
    obtain ⟨a, rfl⟩ := BlockAddress.exists_toIndex_eq (show first < maxBlocks by omega)
    obtain ⟨new, rest, rfl, hnew, hfresh, hnewNodup, hrest, hrestNodup, hlengthRest⟩ :=
      exists_newAt_append hobtained hnodup hlength
    rw [grow, bind_eq, informed_bind]
    refine (growBlock_informed h hP hfresh hnewNodup hnew).imp ?_
    rintro ⟨r₁, left⟩ d₁ K₁ ⟨hleft, g, hK₁⟩
    obtain rfl : left = rest := hleft
    have hstep := ih g.linked hK₁ (by omega) hrest hrestNodup hlengthRest
    rwa [Finset.union_assoc, ← List.toFinset_append] at hstep

end InodeRecord

end InodeVolume

import InodeVolume.Proofs.Inode.Knowledge
import InodeVolume.Proofs.Inode.Transfer

/-!
An inode gets a block whenever there is room for it. Creation, extension and writing fail only at a
block that no inode can have, or for which too few sectors are left; and all that they read is
known, because a sector is written first when an inode takes it.
-/
namespace InodeVolume

/-- An inode has no block `i` as long as it may own only `room` sectors with its record. -/
def BlockBarred (room i : Nat) : Prop := maxBlocks ≤ i ∨ room < 1 + totalSectors (i + 1)

namespace Store

open Program

variable {room : Nat} {d : Image} {s : SectorId} {length : Nat} {kind : InodeKind} {K : Set Nat}

/-- Why an inode is not created on a sector that is there for it. -/
def NotCreated (room length : Nat) (e : VolumeError) : Prop :=
  e = .tooLarge length ∧ maxBlocks < dataBlocks length ∨
    e = .noSpace ∧ dataBlocks length ≤ maxBlocks ∧ room < 1 + totalSectors (dataBlocks length)

theorem createAt_provided : (createAt s length kind).Provided room
    (fun x _ F' K' => match x with
      | .error e => NotCreated room length e
      | .ok () => dataBlocks length ≤ maxBlocks ∧ Known K' F') d {s} K := by
  rw [createAt]
  by_cases hle : maxBlocks < dataBlocks length
  · rw [if_pos hle]
    exact Or.inl ⟨rfl, hle⟩
  · rw [if_neg hle]
    have hblocks : dataBlocks length ≤ maxBlocks := Nat.le_of_not_lt hle
    rw [bind_eq, provided_bind]
    refine ((allocateMany_provided _).and (allocateMany_secures (totalSectors_lt_listLimit hblocks)
      (lenient_anyStep {s} d))).imp ?_
    rintro (e | ids) d₁ F₁ K₁ ⟨⟨-, hfew⟩, -, hobtained⟩
    · refine Or.inr ⟨hobtained.1, hblocks, ?_⟩
      simpa using hfew e rfl
    · obtain ⟨hnodup, hcount, hnew, rfl⟩ := hobtained
      have hset : {s} ∪ ids.toFinset = insert s ids.toFinset := rfl
      have hlinked : Linked ((InodeRecord.fresh kind).pointerAt d₁) (fun s => s.first < 0) ∅ :=
        InodeRecord.linked_fresh kind
      have hgrow := InodeRecord.grow_informed (K := K₁) (dataBlocks length) hlinked
        (by simp [Known]) (by simpa using hblocks) (by simp) hnodup
        (by simpa [totalSectors] using hcount.symm)
      simp only [liftM_eq, bind_eq, pure_eq, provided_bind, provided_onStore]
      refine hgrow.imp ?_
      rintro ⟨r, _⟩ d₂ K₂ hK₂
      simp only [provided_word, informed_store, informed_note, provided_done]
      refine fun _ => ⟨hblocks, ?_⟩
      rw [Finset.empty_union] at hK₂
      rw [hset, known_insert]
      exact ⟨Set.mem_insert _ _, hK₂.mono (Set.subset_insert _ _)⟩

theorem create_provided : (create length kind).Provided room
    (fun x _ F' K' => match x with
      | .error e => e = .noSpace ∧ room = 0 ∨ 0 < room ∧ NotCreated room length e
      | .ok _ => dataBlocks length ≤ maxBlocks ∧ Known K' F') d ∅ K := by
  rw [create, bind_eq, provided_bind, provided_allocate]
  refine fun d' _ => ⟨fun hroom => Or.inl ⟨rfl, Nat.le_zero.1 hroom⟩, fun s _ hlt => ?_⟩
  simp only [bind_eq, pure_eq, provided_bind]
  refine createAt_provided.imp ?_
  rintro (e | ⟨⟩) d₁ F₁ K₁ h
  · simp only [provided_bind, provided_release, provided_done]
    exact fun _ _ => Or.inr ⟨hlt, h⟩
  · exact h

end Store

namespace OpenInode

open Program

variable {room : Nat} {f : OpenInode} {P : Finset SectorId} {d : Image} {K : Set Nat}

/-- An inode that is just what it is on the device has been reached. -/
theorem reached_self (r : InodeRecord) (d : Image) (w : Nat → Option UInt8) :
    Reached (r.byteAt d) r.size w d r := ⟨Nat.le_refl _, fun _ => Or.inl rfl⟩

theorem growTo_provided {blocks : Nat} (h : Stored d f.sector f.record P)
    (hK : Known K (insert f.sector P)) (hblocks : blocks ≤ maxBlocks) :
    (f.growTo blocks).Provided room (fun x _ F' K' => Known K' F' ∧
      ∀ e, x = .error e → room < 1 + totalSectors blocks) d (insert f.sector P) K := by
  rw [growTo]
  by_cases hle : blocks ≤ dataBlocks f.size
  · rw [if_pos hle]
    exact ⟨hK, fun e he => by cases he⟩
  · rw [if_neg hle]
    have hlt : dataBlocks f.record.size < blocks := Nat.lt_of_not_le hle
    have hmono := totalSectors_mono (Nat.le_of_lt hlt)
    have hcount := totalSectors_lt_listLimit hblocks
    have hcard : (insert f.sector P).card = P.card + 1 := Finset.card_insert_of_notMem h.apart
    rw [h.card] at hcard
    simp only [bind_eq, pure_eq, provided_bind, provided_difference]
    refine fun _ => ((Store.allocateMany_provided _).and (Store.allocateMany_secures
      (Nat.lt_of_le_of_lt (Nat.sub_le _ _) hcount) (Store.lenient_anyStep _ d))).imp ?_
    rintro (e | ids) d₁ F₁ K₁ ⟨⟨rfl, hfew⟩, hd, hobtained⟩
    · refine ⟨?_, fun _ _ => ?_⟩
      · rw [hobtained.2]
        exact hK
      · have hlt := hfew e rfl
        simp only [size] at hlt
        omega
    · obtain ⟨hnodup, hlength, hnew, rfl⟩ := hobtained
      change ids.length = totalSectors blocks - totalSectors (dataBlocks f.record.size) at hlength
      have hsum : dataBlocks f.record.size + (blocks - dataBlocks f.record.size) = blocks := by
        omega
      have hgrow := InodeRecord.grow_informed (blocks - dataBlocks f.record.size)
        (h.congr hd).linked (known_insert.1 hK).2 (by rwa [hsum])
        (fun x hx hxP => hnew x hx (Finset.mem_insert_of_mem hxP)) hnodup
        (by rw [hsum, hlength]; omega)
      simp only [liftM_eq, provided_bind, provided_onStore, informed_note, provided_done]
      refine hgrow.grows.imp fun x d₂ K₂ hx => ⟨?_, fun e he => by cases he⟩
      rw [Finset.insert_union, known_insert]
      exact ⟨hx.2 (known_insert.1 hK).1, hx.1⟩

/-- The index blocks of the inode are read. -/
theorem syncAt_provided {g : OpenInode} {position : Nat} {F : Finset SectorId}
    {R : VolumeError → Prop} {G : Finset SectorId → Image → Image → Prop}
    {S : Except VolumeError SectorId × OpenInode → Image → Finset SectorId → Prop}
    (h : (g.syncAt position).Secures G S d F) (hK : Known K F) :
    (g.syncAt position).Provided room
      (fun x _ F' K' => Known K' F' ∧ ∀ e, x.1 = .error e → R e) d F K := by
  simp only [syncAt, sync, liftM_eq, bind_eq, pure_eq, secures_bind, secures_onStore, ensures_store,
    provided_bind, provided_onStore, provided_getOrBreach, provided_done, informed_store] at h ⊢
  have hK' : ∀ n, Owned F n → n ∈ insert g.sector.index K := fun n hn =>
    Set.mem_insert_of_mem _ (hK.of_owned hn)
  refine (h.2.2.informed hK').imp fun place d' K' hx id _ => ⟨?_, fun e he => by cases he⟩
  rw [hx.2]
  exact hK.mono (Set.subset_insert _ _)

/-- A file is extended unless the new byte is in a block that it cannot have. -/
theorem extend_provided (target : Nat) (h : Stored d f.sector f.record P)
    (hK : Known K (insert f.sector P)) : (f.extend target).Provided room
      (fun x _ F' K' => Known K' F' ∧ ∀ e, x.1 = .error e →
        e = .tooLarge target ∧ maxBlocks ≤ target / 512 ∨
          e = .noSpace ∧ target / 512 < maxBlocks ∧ room < 1 + totalSectors (target / 512 + 1))
      d (insert f.sector P) K := by
  have hr := reached_self f.record d fun _ => none
  rw [extend_eq]
  by_cases hlarge : maxBlocks ≤ target / 512
  · rw [if_pos hlarge]
    refine ⟨hK, fun e he => ?_⟩
    cases he
    exact Or.inl ⟨rfl, hlarge⟩
  · rw [if_neg hlarge, provided_bind]
    have hblocks : target / 512 + 1 ≤ maxBlocks := by omega
    refine ((growTo_provided h hK hblocks).and (growTo_secures h hr hblocks)).imp ?_
    rintro (e | g) d₁ F₁ K₁ ⟨⟨hK₁, hfew⟩, hgrown⟩
    · refine ⟨hK₁, fun e' he => ?_⟩
      cases he
      exact Or.inr ⟨hgrown.1, Nat.lt_of_not_le hlarge, hfew e rfl⟩
    · obtain ⟨r₁, P₁, rfl, rfl, he⟩ := hgrown
      have hsettle := settle_secures h hr he (Nat.lt_of_not_le hlarge)
      dsimp only
      rw [settle_eq (lt_maxFileSize_iff.2 (Nat.lt_of_not_le hlarge))] at hsettle ⊢
      exact syncAt_provided hsettle hK₁

theorem sectorFor_provided {position : Nat} (h : Stored d f.sector f.record P)
    (hK : Known K (insert f.sector P)) : (f.sectorFor position).Provided room
      (fun x _ F' K' => Known K' F' ∧ ∀ e, x.1 = .error e → BlockBarred room (position / 512))
      d (insert f.sector P) K := by
  have hindex := fun p id hid => hK.of_owned (h.index_owned p id hid)
  rw [sectorFor, bind_eq, provided_bind]
  simp only [liftM_eq, provided_onStore]
  refine ((InodeRecord.sectorOf_ensures (G := fun _ _ => True) (Q := fun _ d' => d' = d)
    hindex rfl).informed fun _ hn => hn).imp ?_
  rintro (_ | id) d₁ K₁ ⟨rfl, rfl⟩
  · refine (extend_provided position h hK).imp fun x _ F' K' hx => ⟨hx.1, fun e he => ?_⟩
    rcases hx.2 e he with ⟨-, hlarge⟩ | ⟨-, -, hfew⟩
    · exact Or.inl hlarge
    · exact Or.inr hfew
  · exact ⟨hK, fun e he => by cases he⟩

/-- A write stops short only before a block that the file cannot have. -/
theorem writeFrom_provided {offset k : Nat} {bytes : Bytes} (h : Stored d f.sector f.record P)
    (hK : Known K (insert f.sector P)) : (f.writeFrom offset bytes k).Provided room
      (fun x _ F' K' => Known K' F' ∧
        (x.1 < bytes.size → BlockBarred room ((offset + x.1) / 512)))
      d (insert f.sector P) K := by
  induction hn : bytes.size - k using Nat.strong_induction_on generalizing f d P k K with
  | _ n ih =>
    subst hn
    rw [writeFrom]
    by_cases hlt : k < bytes.size
    · rw [dif_pos hlt, bind_eq, provided_bind, provided_sum]
      intro _
      rw [bind_eq, provided_bind]
      refine ((sectorFor_provided h hK).and (sectorFor_secures h
        (reached_self f.record d fun _ => none))).imp ?_
      rintro ⟨e | id, g⟩ d₁ F₁ K₁ ⟨⟨hK₁, hbarred⟩, hpost⟩
      · simp only [liftM_eq, bind_eq, pure_eq, provided_bind, provided_onStore, informed_note,
          provided_done]
        exact ⟨hK₁, fun _ => hbarred e rfl⟩
      · obtain ⟨hid, n, P₁, -, -, -, hb⟩ := hpost
        obtain ⟨r₁, rfl⟩ : ∃ r, g = { f with record := r } := ⟨g.record, hb.eq⟩
        obtain rfl := hb.owned
        obtain ⟨count, hcount⟩ : ∃ count,
            min (bytes.size - k) (512 - (offset + k) % 512) = count := ⟨_, rfl⟩
        have hbounds : 0 < count ∧ (offset + k) % 512 + count ≤ 512 := by omega
        have hwritten : ∀ p, offset + k ≤ p → p < offset + k + count →
            some (bytes.getD (k + (p - (offset + k))) 0) =
              some (bytes.getD (k + (p - (offset + k))) 0) := fun _ _ _ => rfl
        have hchunk := writeChunk_reach_ensures
          (Q := fun g d' => ∃ n b, Becomes { f with record := r₁ } n b g d'
            (insert f.sector P₁) P₁) hb.stored
          (reached_self r₁ d₁ fun p => some (bytes.getD (k + (p - (offset + k))) 0)) hid
          hbounds.2 hwritten fun g d' hg => ⟨_, _, hg⟩
        simp only [liftM_eq, bind_eq, provided_bind, provided_onStore, hcount]
        refine (hchunk.informed fun n hn => hK₁.of_owned hn).imp ?_
        rintro _ d₂ K₂ ⟨hreach, rfl⟩
        refine (hreach.informed fun n hn => hK₁.of_owned hn).imp ?_
        rintro g₂ d₃ K₃ ⟨⟨n₂, b₂, hb₂⟩, rfl⟩
        obtain ⟨r₂, rfl⟩ : ∃ r, g₂ = { f with record := r } := ⟨g₂.record, hb₂.eq⟩
        exact ih _ (by omega) (f := { f with record := r₂ }) hb₂.stored hK₁ rfl
    · rw [dif_neg hlt]
      exact ⟨hK, fun hk => absurd hk hlt⟩

theorem writeAt_provided {offset : Nat} (bytes : Bytes) (h : Stored d f.sector f.record P)
    (hK : Known K (insert f.sector P)) : (f.writeAt offset bytes).Provided room
      (fun x _ F' K' => Known K' F' ∧
        (x.1 < bytes.size → 0 < f.denials ∨ BlockBarred room ((offset + x.1) / 512)))
      d (insert f.sector P) K := by
  rw [writeAt]
  by_cases hdenied : 0 < f.denials
  · rw [if_pos hdenied]
    exact ⟨hK, fun _ => Or.inl hdenied⟩
  · rw [if_neg hdenied]
    exact (writeFrom_provided h hK).imp fun x _ F' K' hx => ⟨hx.1, fun hlt => Or.inr (hx.2 hlt)⟩

end OpenInode

end InodeVolume

import InodeVolume.Proofs.Inode.Creation
import InodeVolume.Proofs.Inode.Settling
import InodeVolume.Proofs.Inode.Survival

/-!
Extension of an open inode. It adds zero bytes at the end, or leaves everything as it was; the new
length is written only when all blocks below it are in place.
-/
namespace InodeVolume

/-- Blocks come to an inode whose record on the device is still the old one. -/
structure Enlarged (d : Image) (s : SectorId) (r : InodeRecord) (P : Finset SectorId)
    (blocks : Nat) (r' : InodeRecord) (d' : Image) (P' : Finset SectorId) : Prop where
  onDisk : d' s.index = d s.index
  growing : InodeRecord.Growing (dataBlocks r.size) r d
    (fun t => t.first < max (dataBlocks r.size) blocks) P' r' d'
  card : P'.card = totalSectors (max (dataBlocks r.size) blocks)
  subset : P ⊆ P'
  apart : s ∉ P'
  byte (p : Nat) : r'.byteAt d' p = r.byteAt d p

namespace Stored

variable {d : Image} {s : SectorId} {r : InodeRecord} {P : Finset SectorId} {blocks : Nat}

theorem enlarged_of_le (h : Stored d s r P) (hle : blocks ≤ dataBlocks r.size) :
    Enlarged d s r P blocks r d P where
  onDisk := rfl
  growing := by
    rw [Nat.max_eq_left hle]
    exact .start h.linked
  card := by rw [Nat.max_eq_left hle, h.card]
  subset := fun _ hx => hx
  apart := h.apart
  byte _ := rfl

/-- The blocks that growth adds read as zeros, as they did when they were not there. -/
theorem enlarged_of_grow {d₁ d₂ : Image} {r₂ : InodeRecord} {ids : List SectorId}
    (h : Stored d s r P) (hlt : dataBlocks r.size < blocks) (hd : Agree (insert s P) d d₁)
    (hs : d₂ s.index = d₁ s.index) (hnodup : ids.Nodup) (hnew : ∀ x ∈ ids, x ∉ insert s P)
    (hlength : ids.length = totalSectors blocks - totalSectors (dataBlocks r.size))
    (g : InodeRecord.Growing (dataBlocks r.size) r d₁ (fun t => t.first < blocks)
      (P ∪ ids.toFinset) r₂ d₂)
    (hzero : ∀ a : BlockAddress, dataBlocks r.size ≤ a.toIndex → a.toIndex < blocks →
      ∃ id, r₂.dataAt d₂ a = some id ∧ d₂ id.index = Sector.zero) :
    Enlarged d s r P blocks r₂ d₂ (P ∪ ids.toFinset) := by
  have hmax : max (dataBlocks r.size) blocks = blocks := Nat.max_eq_right (Nat.le_of_lt hlt)
  have hsP : s ∉ ids.toFinset := by
    intro hx
    exact hnew s (List.mem_toFinset.1 hx) (Finset.mem_insert_self s P)
  have hdisjoint : Disjoint P ids.toFinset := by
    rw [Finset.disjoint_left]
    intro x hx hxi
    exact hnew x (List.mem_toFinset.1 hxi) (Finset.mem_insert_of_mem hx)
  have hmono := totalSectors_mono (Nat.le_of_lt hlt)
  exact {
    onDisk := hs.trans (hd s (Finset.mem_insert_self s P))
    growing := by
      rw [hmax]
      exact ⟨g.linked, g.extension, (h.preserves_of_agree hd _).trans g.preserves⟩
    card := by
      rw [hmax, Finset.card_union_of_disjoint hdisjoint, h.card,
        List.toFinset_card_of_nodup hnodup, hlength]
      omega
    subset := Finset.subset_union_left
    apart := by simp only [Finset.mem_union, h.apart, hsP, or_self, not_false_eq_true]
    byte := by
      intro p
      by_cases hp : p / 512 < dataBlocks r.size
      · rw [g.byteAt_eq hp, h.byteAt_eq hd]
      · have hle : dataBlocks r.size ≤ p / 512 := Nat.le_of_not_lt hp
        rw [InodeRecord.byteAt_of_none (h.blockAt_eq_none hle)]
        refine InodeRecord.byteAt_of_zero fun a ha id hid => ?_
        have hblocks := (g.linked.isSome_iff (.data a)).1 (by rw [r₂.pointerAt_data, hid]; rfl)
        obtain ⟨x, hx, hxz⟩ := hzero a (ha ▸ hle) hblocks
        rw [hx, Option.some.injEq] at hid
        rw [← hid, hxz] }

end Stored

namespace OpenInode

open Program

variable {c : Nat → UInt8} {m : Nat} {w : Nat → Option UInt8} {f : OpenInode}
  {P : Finset SectorId} {d : Image}

theorem growTo_secures {blocks : Nat} (h : Stored d f.sector f.record P)
    (hr : Reached c m w d f.record) (hblocks : blocks ≤ maxBlocks) :
    (f.growTo blocks).Secures (SafeStep c m w f.sector)
      (fun x d' F' => match x with
        | .error e => e = .noSpace ∧ dataBlocks f.size < blocks ∧ F' = insert f.sector P ∧
          Agree (insert f.sector P) d d'
        | .ok g => ∃ r' P', g = { f with record := r' } ∧ F' = insert f.sector P' ∧
          Enlarged d f.sector f.record P blocks r' d' P') d (insert f.sector P) := by
  rw [growTo]
  by_cases hle : blocks ≤ dataBlocks f.size
  · rw [if_pos hle]
    exact ⟨f.record, P, rfl, rfl, h.enlarged_of_le hle⟩
  · rw [if_neg hle]
    have hlt : dataBlocks f.record.size < blocks := Nat.lt_of_not_le hle
    have hmono := totalSectors_mono (Nat.le_of_lt hlt)
    have hcount := totalSectors_lt_listLimit hblocks
    simp only [bind_eq, pure_eq, secures_bind, secures_difference]
    refine ⟨hmono, ?_⟩
    refine (Store.allocateMany_secures (Nat.lt_of_le_of_lt (Nat.sub_le _ _) hcount)
      (h.lenient hr)).imp ?_
    rintro (e | ids) d₁ F₁ ⟨hd, hobtained⟩
    · exact ⟨hobtained.1, hlt, hobtained.2, hd⟩
    · obtain ⟨hnodup, hlength, hnew, rfl⟩ := hobtained
      change ids.length = totalSectors blocks - totalSectors (dataBlocks f.record.size) at hlength
      have h₁ : Stored d₁ f.sector f.record P := h.congr hd
      have hr₁ : Reached c m w d₁ f.record := hr.congr (Nat.le_refl _) fun p => h.byteAt_eq hd
      have hnewP : ∀ x ∈ ids, x ∉ P := fun x hx hxP => hnew x hx (Finset.mem_insert_of_mem hxP)
      have hout : ¬ Owned (P ∪ ids.toFinset) f.sector.index := by
        apply not_owned_of_not_mem
        simp only [Finset.mem_union, List.mem_toFinset, not_or]
        exact ⟨h.apart, fun hx => hnew _ hx (Finset.mem_insert_self _ _)⟩
      have hsum : dataBlocks f.record.size + (blocks - dataBlocks f.record.size) = blocks := by
        omega
      have hgrow := InodeRecord.grow_ensures (blocks - dataBlocks f.record.size) h₁.linked
        (by rwa [hsum]) hnewP hnodup (by rw [hsum, hlength]; omega)
      rw [hsum] at hgrow
      simp only [liftM_eq, secures_bind, secures_onStore, ensures_note, secures_done]
      have hboth := hgrow.frame.both (I := fun e => e f.sector.index = d₁ f.sector.index)
        (fun _ _ hg => hg.2 _ hout) rfl
      refine hboth.mono ?_ ?_ ?_
      · intro n hn
        exact hn.mono (Finset.union_subset_union_left (Finset.subset_insert _ _))
      · rintro e₁ e₂ ⟨he₁, hpres, he₂⟩
        refine h₁.safeStep hr₁ ?_ he₁ (he₂ _ hout) hpres
        exact (Finset.subset_insert _ _).trans Finset.subset_union_left
      · rintro ⟨r₂, _⟩ d₂ ⟨⟨g, -, hzero⟩, hkeep⟩
        exact ⟨r₂, P ∪ ids.toFinset, rfl, Finset.insert_union _ _ _,
          h.enlarged_of_grow hlt hd (hkeep _ hout) hnodup hnew hlength g hzero⟩

/-- `f` has become `g`, of `n` bytes, which are those of `b`. It owns the sectors of `F`. -/
structure Becomes (f : OpenInode) (n : Nat) (b : Nat → UInt8) (g : OpenInode) (d : Image)
    (F P : Finset SectorId) : Prop where
  eq : g = { f with record := g.record }
  owned : F = insert f.sector P
  stored : Stored d f.sector g.record P
  kind : g.record.kind = f.record.kind
  size : g.record.size = n
  byte (p : Nat) : g.record.byteAt d p = b p

theorem resized_done {n : Nat} (h : n ≤ maxFileSize) :
    f.resized n = .done { f with record := f.record.withLength n } := by
  have hn : n < 0x100000000 := by
    simp only [maxFileSize] at h
    omega
  simp [resized, word, require, hn, InodeRecord.withLength]

/-- An inode that settles gets the length that it has at least to have. -/
theorem settle_eq {target : Nat} (h : target < maxFileSize) : f.settle target =
    syncAt { f with record := f.record.withLength (max f.size (target + 1)) } target := by
  rw [settle]
  by_cases hle : f.size ≤ target
  · rw [if_pos hle, resized_done h, Nat.max_eq_right (Nat.le_succ_of_le hle)]
    rfl
  · have hsame : f.record.withLength f.size = f.record := InodeRecord.withLength_size
    rw [if_neg hle, Nat.max_eq_left (Nat.lt_of_not_le hle), hsame]
    rfl

/-- An enlarged inode gets its new length, by one write of the record. -/
theorem becomes_of_enlarged {r' : InodeRecord} {d' : Image} {P' : Finset SectorId} {blocks n : Nat}
    (h : Stored d f.sector f.record P) (he : Enlarged d f.sector f.record P blocks r' d' P')
    (hn : n ≤ maxFileSize) (hlt : f.record.size ≤ n)
    (hblocks : dataBlocks n = max (dataBlocks f.record.size) blocks) :
    Becomes f n (f.record.byteAt d) { f with record := r'.withLength n }
      (Function.update d' f.sector.index (encode (r'.withLength n))) (insert f.sector P') P' := by
  have hvalid : r'.isValid = true := by
    rw [InodeRecord.isValid_of_extends he.growing.extension, h.valid]
  have hlinked := he.growing.linked
  have hcard := he.card
  rw [← hblocks] at hlinked hcard
  obtain ⟨hstored, hsame⟩ := Stored.of_sync hvalid hn hlinked hcard he.apart
    fun p hp => (he.byte p).trans (h.tail p (hlt.trans hp))
  exact {
    eq := rfl
    owned := rfl
    stored := hstored
    kind := (InodeRecord.kind_of_extends he.growing.extension : r'.kind = f.record.kind)
    size := InodeRecord.size_withLength hn
    byte := fun p => (hsame p).trans (he.byte p) }

theorem Becomes.reached {b : Nat → UInt8} {n : Nat} {g : OpenInode} {d' : Image}
    {F P' : Finset SectorId} (h : Becomes f n b g d' F P') (hn : m ≤ n)
    (hb : ∀ p, b p = c p ∨ w p = some (b p)) : Reached c m w d' g.record where
  size_ge := hn.trans_eq h.size.symm
  byte p := by
    rw [h.byte]
    exact hb p

/-- Why a file is not extended to a byte. -/
def NotExtended (r : InodeRecord) (target : Nat) (e : VolumeError) : Prop :=
  e = .noSpace ∧ dataBlocks r.size ≤ target / 512 ∨ e = .tooLarge target ∧ maxFileSize ≤ target

theorem NotExtended.le_div {r : InodeRecord} {target : Nat} {e : VolumeError}
    (h : NotExtended r target e) (hr : r.size ≤ maxFileSize) :
    dataBlocks r.size ≤ target / 512 := by
  have hle := dataBlocks_le hr
  rcases h with ⟨-, h⟩ | ⟨-, h⟩
  · exact h
  · exact hle.trans (Nat.le_of_not_lt (mt lt_maxFileSize_iff.2 (Nat.not_lt.2 h)))

/-- How the extension of a file to a byte ends: there is no sector for it, and the file is as it was,
or there is one, and the file has `n` bytes. -/
def ExtendedTo (f : OpenInode) (d : Image) (P : Finset SectorId) (n target : Nat)
    (x : Except VolumeError SectorId × OpenInode) (d' : Image) (F' : Finset SectorId) : Prop :=
  match x with
  | (.error e, g) => g = f ∧ NotExtended f.record target e ∧ F' = insert f.sector P ∧
    Agree (insert f.sector P) d d'
  | (.ok id, g) => g.record.blockAt d' (target / 512) = some id ∧ ∃ P',
    Becomes f n (f.record.byteAt d) g d' F' P'

/-- The record is written back with its new length, and the byte has its sector. -/
theorem syncAt_secures {r' : InodeRecord} {d' : Image} {P' : Finset SectorId}
    {blocks n target : Nat} (h : Stored d f.sector f.record P) (hr : Reached c m w d f.record)
    (he : Enlarged d f.sector f.record P blocks r' d' P')
    (hb : Becomes f n (f.record.byteAt d) { f with record := r'.withLength n }
      (Function.update d' f.sector.index (encode (r'.withLength n))) (insert f.sector P') P')
    (hn : f.record.size ≤ n) (htarget : target / 512 < dataBlocks n) :
    (syncAt { f with record := r'.withLength n } target).Secures (SafeStep c m w f.sector)
      (f.ExtendedTo d P n target) d' (insert f.sector P') := by
  have hstored := hb.stored
  have hreached := hb.reached (hr.size_ge.trans hn) hr.byte
  obtain ⟨id, -, hid⟩ := hstored.exists_blockAt (i := target / 512) (by rwa [hb.size])
  simp only [syncAt, sync, liftM_eq, bind_eq, pure_eq, secures_bind, secures_onStore,
    ensures_store, secures_getOrBreach, secures_done]
  refine ⟨owned_of_mem (Finset.mem_insert_self _ _), ⟨?_, ?_⟩, ?_⟩
  · exact hstored.survives hreached (Finset.subset_insert _ _)
  · rw [hstored.onDisk, recordAt_congr he.onDisk, h.onDisk]
    exact hn.trans_eq hb.size.symm
  · exact InodeRecord.blockSector_ensures hstored.index_owned ⟨id, hid, hid, P', hb⟩

/-- What an extension does once the blocks are there. -/
theorem settle_secures {target : Nat} {r₁ : InodeRecord} {d₁ : Image} {P₁ : Finset SectorId}
    (h : Stored d f.sector f.record P) (hr : Reached c m w d f.record)
    (he : Enlarged d f.sector f.record P (target / 512 + 1) r₁ d₁ P₁)
    (hlarge : target / 512 < maxBlocks) :
    (settle { f with record := r₁ } target).Secures (SafeStep c m w f.sector)
      (f.ExtendedTo d P (max f.record.size (target + 1)) target) d₁ (insert f.sector P₁) := by
  have htarget : target + 1 ≤ maxFileSize := lt_maxFileSize_iff.2 hlarge
  have hn : max f.record.size (target + 1) ≤ maxFileSize := Nat.max_le.2 ⟨h.size_le, htarget⟩
  have hblocks := dataBlocks_max_succ f.record.size target
  have hb := becomes_of_enlarged h he hn (Nat.le_max_left _ _) hblocks
  have hsize : ({ f with record := r₁ } : OpenInode).size = f.record.size :=
    InodeRecord.size_of_extends he.growing.extension
  have hlt : target / 512 < dataBlocks (max f.record.size (target + 1)) := by
    rw [hblocks]
    omega
  rw [settle_eq htarget, hsize]
  exact syncAt_secures h hr he hb (Nat.le_max_left _ _) hlt

theorem extend_secures (target : Nat) (h : Stored d f.sector f.record P)
    (hr : Reached c m w d f.record) :
    (f.extend target).Secures (SafeStep c m w f.sector)
      (f.ExtendedTo d P (max f.record.size (target + 1)) target) d (insert f.sector P) := by
  rw [extend_eq]
  by_cases hlarge : maxBlocks ≤ target / 512
  · rw [if_pos hlarge]
    have htarget : maxFileSize ≤ target :=
      Nat.le_of_not_lt (mt lt_maxFileSize_iff.1 (Nat.not_lt.2 hlarge))
    exact ⟨rfl, Or.inr ⟨rfl, htarget⟩, rfl, agree_refl _ d⟩
  · rw [if_neg hlarge, secures_bind]
    refine (growTo_secures h hr (by omega)).imp ?_
    rintro (e | g) d₁ F₁ hgrown
    · exact ⟨rfl, Or.inl ⟨hgrown.1, Nat.le_of_lt_succ hgrown.2.1⟩, hgrown.2.2⟩
    · obtain ⟨r₁, P₁, rfl, rfl, he⟩ := hgrown
      exact settle_secures h hr he (Nat.lt_of_not_le hlarge)

end OpenInode

end InodeVolume

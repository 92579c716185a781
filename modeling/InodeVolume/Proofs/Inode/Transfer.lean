import InodeVolume.Inode.Transfer
import InodeVolume.Proofs.Inode.Extension
import Mathlib.Algebra.Group.Nat.Defs

/-!
Reading and writing of an open inode. A read answers the bytes of the file; a write puts its bytes
over those of the file as far as it comes, and it stops short only where the file would have to
take another block.
-/
namespace InodeVolume

namespace InodeRecord

/-- The `count` bytes of a file from byte `first` on. -/
def bytesFrom (r : InodeRecord) (d : Image) (first count : Nat) : Bytes :=
  Array.ofFn fun i : Fin count => r.byteAt d (first + i)

variable {r : InodeRecord} {d : Image}

@[simp] theorem size_bytesFrom {first count : Nat} : (r.bytesFrom d first count).size = count := by
  simp [bytesFrom]

theorem bytesFrom_zero (first : Nat) : r.bytesFrom d first 0 = #[] := by
  simp [bytesFrom]

theorem bytesFrom_add (first m n : Nat) :
    r.bytesFrom d first (m + n) = r.bytesFrom d first m ++ r.bytesFrom d (first + m) n := by
  apply Array.ext
  · simp
  · intro i hi _
    by_cases hm : i < m
    · simp [bytesFrom, hm]
    · have hsum : first + m + (i - m) = first + i := by omega
      simp [bytesFrom, Array.getElem_append, hm, hsum]

/-- The bytes of one sector. -/
theorem extract_eq_bytesFrom {position count : Nat} {id : SectorId}
    (h : r.blockAt d (position / 512) = some id) (hcount : position % 512 + count ≤ 512) :
    (d id.index).toArray.extract (position % 512) (position % 512 + count) =
      r.bytesFrom d position count := by
  apply Array.ext
  · simp
    omega
  · intro i hi _
    have hi' : i < count := by
      simp only [Array.size_extract, Vector.size_toArray] at hi
      omega
    have hdiv : (position + i) / 512 = position / 512 := by omega
    have hmod : (position + i) % 512 = position % 512 + i := by omega
    rw [← hdiv] at h
    simp only [bytesFrom, Array.getElem_ofFn, byteAt_of_some h, hmod, Array.getElem_extract,
      Vector.getElem_toArray]

/-- A read of `count` bytes from byte `first` on ends after `k` of them: it comes to its end, or to
a byte that has no sector. -/
structure StopsAfter (r : InodeRecord) (d : Image) (first count k : Nat) : Prop where
  le : k ≤ count
  mapped (p : Nat) : first ≤ p → p < first + k → (r.blockAt d (p / 512)).isSome
  stops : k = count ∨ r.blockAt d ((first + k) / 512) = none

/-- The bytes before are read from one sector. -/
theorem StopsAfter.later {first chunk rest count k : Nat} {id : SectorId}
    (h : r.StopsAfter d (first + chunk) rest k) (hat : r.blockAt d (first / 512) = some id)
    (hchunk : first % 512 + chunk ≤ 512) (hcount : count = chunk + rest) :
    r.StopsAfter d first count (chunk + k) where
  le := by
    have := h.le
    omega
  mapped p h₁ h₂ := by
    by_cases hp : p < first + chunk
    · have hblock : p / 512 = first / 512 := by omega
      rw [hblock, hat]
      rfl
    · exact h.mapped p (by omega) (by omega)
  stops := by
    rw [← Nat.add_assoc]
    refine h.stops.imp_left ?_
    omega

end InodeRecord

namespace OpenInode

open Program

variable {c : Nat → UInt8} {m : Nat} {w : Nat → Option UInt8} {f : OpenInode}
  {P : Finset SectorId} {d : Image} {G : Image → Image → Prop} {Q : Bytes → Image → Prop}

/-- A read that meets an absent pointer on the way stops there. -/
theorem readFrom_stops {A : Nat → Prop} {obtained : Bytes} {position stop : Nat}
    (hA : ∀ s id, f.record.pointerAt d s = some id → A id.index) (hstop : stop ≤ f.record.size)
    (hQ : ∀ k, f.record.StopsAfter d position (stop - position) k →
      Q (obtained ++ f.record.bytesFrom d position k) d) :
    (f.readFrom obtained position stop).Ensures A G Q d := by
  induction hn : stop - position using Nat.strong_induction_on generalizing obtained position with
  | _ n ih =>
    subst hn
    rw [readFrom]
    by_cases hlt : position < stop
    · rw [dif_pos hlt, bind_eq, ensures_bind]
      refine InodeRecord.sectorOf_ensures (fun q => hA (.index q)) ?_
      rw [if_neg (by omega)]
      cases hat : f.record.blockAt d (position / 512) with
      | none =>
        have hstops : f.record.StopsAfter d position (stop - position) 0 :=
          ⟨Nat.zero_le _, fun p h₁ h₂ => absurd h₂ (Nat.not_lt.2 h₁), .inr hat⟩
        simp only [bind_eq, pure_eq, ensures_bind, ensures_note, ensures_done]
        simpa [InodeRecord.bytesFrom_zero] using hQ 0 hstops
      | some id =>
        obtain ⟨a, -, ha⟩ := InodeRecord.blockAt_eq_some_iff.1 hat
        simp only [bind_eq, ensures_bind, ensures_readSector]
        refine ⟨hA (.data a) id ha, ih _ (by omega) (fun k hk => ?_) rfl⟩
        rw [InodeRecord.extract_eq_bytesFrom hat (by omega), Array.append_assoc,
          ← InodeRecord.bytesFrom_add]
        exact hQ _ (hk.later hat (by omega) (by omega))
    · rw [dif_neg hlt]
      have hstops : f.record.StopsAfter d position (stop - position) 0 :=
        ⟨Nat.zero_le _, fun p h₁ h₂ => absurd h₂ (Nat.not_lt.2 h₁), .inl (by omega)⟩
      simpa [InodeRecord.bytesFrom_zero] using hQ 0 hstops

theorem readAt_stops {A : Nat → Prop} {offset length : Nat}
    (hA : ∀ s id, f.record.pointerAt d s = some id → A id.index) (hlength : length < 2 ^ 63)
    (hQ : ∀ k, f.record.StopsAfter d offset (min length (f.record.size - offset)) k →
      Q (f.record.bytesFrom d offset k) d) : (f.readAt offset length).Ensures A G Q d := by
  have hsize : f.record.size < 0x100000000 := f.record.length.toNat_lt
  rw [readAt]
  by_cases hle : f.record.size ≤ offset
  · have hstops : f.record.StopsAfter d offset (min length (f.record.size - offset)) 0 :=
      ⟨Nat.zero_le _, fun p h₁ h₂ => absurd h₂ (Nat.not_lt.2 h₁), .inl (by omega)⟩
    rw [if_pos (show f.size ≤ offset from hle)]
    simpa [InodeRecord.bytesFrom_zero] using hQ 0 hstops
  · have hcount : min (offset + length) f.size - offset = min length (f.record.size - offset) := by
      simp only [size]
      omega
    rw [if_neg (show ¬ f.size ≤ offset from hle)]
    simp only [bind_eq, ensures_bind, ensures_sum]
    refine ⟨by omega, readFrom_stops hA (Nat.min_le_right _ _) fun k hk => ?_⟩
    rw [Array.empty_append]
    exact hQ k (hcount ▸ hk)

/-- A read answers the bytes of the file, up to its end. -/
theorem readAt_ensures {offset length : Nat} (h : Stored d f.sector f.record P)
    (hlength : length < 2 ^ 63)
    (hQ : Q (f.record.bytesFrom d offset (min length (f.record.size - offset))) d) :
    (f.readAt offset length).Ensures (Owned (insert f.sector P)) G Q d := by
  refine readAt_stops (fun s id hs => ?_) hlength fun k hk => ?_
  · exact owned_of_mem (Finset.mem_insert_of_mem (h.linked.mem hs))
  · rcases hk.stops with rfl | hnone
    · exact hQ
    · by_cases hlt : offset + k < f.record.size
      · obtain ⟨id, -, hat⟩ := h.exists_blockAt (div_lt_dataBlocks hlt)
        cases hnone.symm.trans hat
      · have hle := hk.le
        rwa [show k = min length (f.record.size - offset) by omega]

end OpenInode

/-- A file of bytes `c` after the first `count` of some bytes are put over it at `offset`. -/
def overlaid (c : Nat → UInt8) (offset : Nat) (bytes : Bytes) (count : Nat) : Nat → UInt8 :=
  fun p => if offset ≤ p ∧ p < offset + count then bytes.getD (p - offset) 0 else c p

/-- What a write puts at a position. -/
def written (offset : Nat) (bytes : Bytes) : Nat → Option UInt8 :=
  fun p => if offset ≤ p ∧ p < offset + bytes.size then some (bytes.getD (p - offset) 0) else none

@[simp] theorem overlaid_zero (c : Nat → UInt8) (offset : Nat) (bytes : Bytes) :
    overlaid c offset bytes 0 = c := by
  funext p
  rw [overlaid, if_neg (by omega)]

theorem overlaid_eq_or_written {c : Nat → UInt8} {offset count : Nat} {bytes : Bytes}
    (h : count ≤ bytes.size) (p : Nat) : overlaid c offset bytes count p = c p ∨
      written offset bytes p = some (overlaid c offset bytes count p) := by
  by_cases hp : offset ≤ p ∧ p < offset + count
  · refine Or.inr ?_
    rw [written, overlaid, if_pos hp, if_pos (by omega)]
  · refine Or.inl ?_
    rw [overlaid, if_neg hp]

/-- The length of a file of `n` bytes after `count` bytes are written at `offset`. -/
def lengthAfter (n offset count : Nat) : Nat := if count = 0 then n else max n (offset + count)

theorem max_lengthAfter {m offset k n count : Nat} (hn : lengthAfter m offset k ≤ n)
    (hle : n ≤ max (lengthAfter m offset k) (offset + k + 1)) (hcount : 0 < count) :
    max n (offset + k + count) = lengthAfter m offset (k + count) := by
  have hk : k + count ≠ 0 := by omega
  rw [lengthAfter, if_neg hk]
  unfold lengthAfter at hn hle
  by_cases hz : k = 0
  · rw [if_pos hz] at hn hle
    omega
  · rw [if_neg hz] at hn hle
    omega

theorem overlaid_add (c : Nat → UInt8) (offset : Nat) (bytes : Bytes) (m n p : Nat) :
    (if offset + m ≤ p ∧ p < offset + m + n then bytes.getD (m + (p - (offset + m))) 0
      else overlaid c offset bytes m p) = overlaid c offset bytes (m + n) p := by
  unfold overlaid
  by_cases hp : offset + m ≤ p ∧ p < offset + m + n
  · rw [if_pos hp, if_pos (by omega), show m + (p - (offset + m)) = p - offset by omega]
  · rw [if_neg hp]
    by_cases hm : offset ≤ p ∧ p < offset + m
    · rw [if_pos hm, if_pos (by omega)]
    · rw [if_neg hm, if_neg (by omega)]

theorem Sector.ofSlice_eq_overlay (s : Sector) (bytes : Bytes) (first : Nat) :
    ofSlice bytes first = s.overlay 0 512 bytes first := by
  apply Vector.ext
  intro i hi
  simp [ofSlice, overlay]

/-- The image after a part of a sector is replaced. -/
def Image.overlay (d : Image) (id : SectorId) (skip count : Nat) (bytes : Bytes) (first : Nat) :
    Image :=
  Function.update d id.index ((d id.index).overlay skip count bytes first)

/-- A part of a data sector is replaced, and with it the bytes at the positions that it holds. -/
theorem Placed.overlay {d : Image} {s id : SectorId} {r : InodeRecord} {P : Finset SectorId}
    {start count : Nat} (first : Nat) (bytes : Bytes) (h : Placed d s r P)
    (hid : r.blockAt d (start / 512) = some id) (hfit : start % 512 + count ≤ 512) :
    Placed (d.overlay id (start % 512) count bytes first) s r P ∧
      ∀ p, r.byteAt (d.overlay id (start % 512) count bytes first) p =
        if start ≤ p ∧ p < start + count then bytes.getD (first + (p - start)) 0
        else r.byteAt d p := by
  obtain ⟨a, ha, hat⟩ := InodeRecord.blockAt_eq_some_iff.1 hid
  have hindex (q : IndexSlot) : r.indexAt d q ≠ some id := by
    intro hq
    cases h.linked.injective (s := .index q) (t := .data a) hq hat
  have hpointer : r.pointerAt (d.overlay id (start % 512) count bytes first) = r.pointerAt d :=
    InodeRecord.pointerAt_update_of_ne hindex
  have hblock := InodeRecord.blockAt_eq_of_pointerAt hpointer
  have hne : s.index ≠ id.index := by
    intro he
    cases SectorId.index_injective he
    exact h.apart (InodeRecord.blockAt_mem h.linked hid)
  refine ⟨{
    valid := h.valid
    size_le := h.size_le
    onDisk := (recordAt_congr (Function.update_of_ne hne _ _)).trans h.onDisk
    linked := by
      rw [hpointer]
      exact h.linked
    card := h.card
    apart := h.apart }, fun p => ?_⟩
  by_cases hp : p / 512 = start / 512
  · have hb : r.blockAt d (p / 512) = some id := by rw [hp, hid]
    have hb' := hb
    rw [← hblock] at hb'
    rw [InodeRecord.byteAt_of_some hb', InodeRecord.byteAt_of_some hb]
    simp only [Image.overlay, Function.update_self, Sector.overlay, Vector.getElem_ofFn]
    by_cases hin : start ≤ p ∧ p < start + count
    · rw [if_pos hin, if_pos (by omega), show p % 512 - start % 512 = p - start by omega]
    · rw [if_neg hin, if_neg (by omega)]
      rfl
  · rw [if_neg (by omega)]
    refine InodeRecord.byteAt_congr (by rw [hblock]) fun x hx => ?_
    have hxid : x.index ≠ id.index := by
      intro he
      cases SectorId.index_injective he
      exact hp (InodeRecord.blockAt_injective h.linked hx hid)
    exact Function.update_of_ne hxid _ _

namespace OpenInode

open Program

variable {c : Nat → UInt8} {m : Nat} {w : Nat → Option UInt8} {f : OpenInode}
  {P : Finset SectorId} {d : Image}

theorem writeChunk_ensures {A : Nat → Prop} {G : Image → Image → Prop} {Q : Unit → Image → Prop}
    {id : SectorId} {skip count first : Nat} {bytes : Bytes} (hfit : skip + count ≤ 512)
    (hA : A id.index) (hG : G d (d.overlay id skip count bytes first))
    (hQ : Q () (d.overlay id skip count bytes first)) :
    (writeChunk id skip count bytes first).Ensures A G Q d := by
  rw [writeChunk]
  by_cases hc : count = 512
  · obtain rfl : skip = 0 := by omega
    subst hc
    rw [if_pos rfl, ensures_writeSector, Sector.ofSlice_eq_overlay (d id.index)]
    exact ⟨hA, hG, hQ⟩
  · rw [if_neg hc]
    simp only [bind_eq, ensures_bind, ensures_readSector, ensures_writeSector]
    exact ⟨hA, hA, hG, hQ⟩

/-- The byte gets a sector, for which the file may become longer, but no longer than up to it. -/
theorem sectorFor_secures {position : Nat} (h : Stored d f.sector f.record P)
    (hr : Reached c m w d f.record) :
    (f.sectorFor position).Secures (SafeStep c m w f.sector)
      (fun x d' F' => match x with
        | (.error _, g) => g = f ∧ dataBlocks f.record.size ≤ position / 512 ∧
          F' = insert f.sector P ∧ Agree (insert f.sector P) d d'
        | (.ok id, g) => g.record.blockAt d' (position / 512) = some id ∧ ∃ n P',
          f.record.size ≤ n ∧ n ≤ max f.record.size (position + 1) ∧ position ≤ n ∧
          Becomes f n (f.record.byteAt d) g d' F' P') d (insert f.sector P) := by
  rw [sectorFor, bind_eq, secures_bind]
  simp only [liftM_eq, secures_onStore]
  refine InodeRecord.sectorOf_ensures h.index_owned ?_
  cases hx : (if f.record.size < position then none else f.record.blockAt d (position / 512)) with
  | some id =>
    by_cases hlt : f.record.size < position
    · rw [if_pos hlt] at hx
      cases hx
    · rw [if_neg hlt] at hx
      exact ⟨hx, f.record.size, P, Nat.le_refl _, Nat.le_max_left _ _, Nat.le_of_not_lt hlt,
        ⟨rfl, rfl, h, rfl, rfl, fun _ => rfl⟩⟩
  | none =>
    refine (extend_secures _ h hr).imp ?_
    rintro ⟨e | id, g⟩ d' F' hpost
    · exact ⟨hpost.1, hpost.2.1.le_div h.size_le, hpost.2.2⟩
    · obtain ⟨hid, P', hb⟩ := hpost
      exact ⟨hid, _, P', Nat.le_max_left _ _, Nat.le_refl _, by omega, hb⟩

/-- The end of the file moves on within its last block, where there are zeros behind it. -/
theorem reach_ensures {stop : Nat} {Q : OpenInode → Image → Prop}
    (h : Placed d f.sector f.record P) (hr : Reached c m w d f.record)
    (hstop : stop ≤ 512 * dataBlocks f.record.size)
    (htail : ∀ p, max f.record.size stop ≤ p → f.record.byteAt d p = 0)
    (hQ : ∀ g d', Becomes f (max f.record.size stop) (f.record.byteAt d) g d'
      (insert f.sector P) P → Q g d') :
    (f.reach stop).Ensures (Owned (insert f.sector P))
      (SafeStep c m w f.sector (insert f.sector P)) Q d := by
  rw [reach]
  by_cases hle : stop ≤ f.record.size
  · have hlen : max f.record.size stop = f.record.size := Nat.max_eq_left hle
    rw [if_pos (show stop ≤ f.size from hle)]
    rw [hlen] at hQ htail
    exact hQ f d ⟨rfl, rfl, ⟨h, htail⟩, rfl, rfl, fun _ => rfl⟩
  · have hlt : f.record.size < stop := Nat.lt_of_not_le hle
    have hlen : max f.record.size stop = stop := Nat.max_eq_right hlt.le
    rw [hlen] at hQ htail
    have hmax := le_maxFileSize_of_le h.size_le hstop
    have hlinked := h.linked
    have hcard := h.card
    rw [← dataBlocks_eq_of_le hlt hstop] at hlinked hcard
    obtain ⟨hstored, hsame⟩ := Stored.of_sync h.valid hmax hlinked hcard h.apart htail
    have hsize : (f.record.withLength stop).size = stop := InodeRecord.size_withLength hmax
    have hreached := hr.congr (hlt.le.trans_eq hsize.symm) hsame
    rw [if_neg (show ¬ stop ≤ f.size from hle), resized_done hmax]
    simp only [sync, bind_eq, pure_eq, done_bind, ensures_bind, ensures_store, ensures_done]
    refine ⟨owned_of_mem (Finset.mem_insert_self _ _),
      ⟨hstored.survives hreached (Finset.subset_insert _ _), ?_⟩, hQ _ _ ?_⟩
    · rw [h.onDisk, hstored.onDisk, hsize]
      exact hlt.le
    · exact ⟨rfl, rfl, hstored, rfl, hsize, hsame⟩

/-- A part of a data sector is replaced, and then the file reaches at least to the end of it. -/
theorem writeChunk_reach_ensures {start count first : Nat} {bytes : Bytes} {id : SectorId}
    {Q : OpenInode → Image → Prop} (h : Stored d f.sector f.record P)
    (hr : Reached c m w d f.record) (hid : f.record.blockAt d (start / 512) = some id)
    (hfit : start % 512 + count ≤ 512)
    (hw : ∀ p, start ≤ p → p < start + count → w p = some (bytes.getD (first + (p - start)) 0))
    (hQ : ∀ g d', Becomes f (max f.record.size (start + count))
      (fun p => if start ≤ p ∧ p < start + count then bytes.getD (first + (p - start)) 0
        else f.record.byteAt d p) g d' (insert f.sector P) P → Q g d') :
    (writeChunk id (start % 512) count bytes first).Ensures (Owned (insert f.sector P))
      (SafeStep c m w f.sector (insert f.sector P))
      (fun _ d' => (f.reach (start + count)).Ensures (Owned (insert f.sector P))
        (SafeStep c m w f.sector (insert f.sector P)) Q d') d := by
  obtain ⟨hplaced, hbyte⟩ := h.toPlaced.overlay first bytes hid hfit
  have hblock := h.lt_dataBlocks hid
  have hreached : Reached c m w (d.overlay id (start % 512) count bytes first) f.record := by
    refine ⟨hr.size_ge, fun p => ?_⟩
    rw [hbyte]
    by_cases hp : start ≤ p ∧ p < start + count
    · rw [if_pos hp]
      exact Or.inr (hw p hp.1 hp.2)
    · rw [if_neg hp]
      exact hr.byte p
  have htail (p : Nat) (hp : max f.record.size (start + count) ≤ p) :
      f.record.byteAt (d.overlay id (start % 512) count bytes first) p = 0 := by
    rw [hbyte, if_neg (by omega)]
    exact h.tail p (by omega)
  have hsize : (recordAt d f.sector).size ≤
      (recordAt (d.overlay id (start % 512) count bytes first) f.sector).size := by
    rw [h.onDisk, hplaced.onDisk]
  refine writeChunk_ensures hfit
    (owned_of_mem (Finset.mem_insert_of_mem (InodeRecord.blockAt_mem h.linked hid)))
    ⟨hplaced.survives hreached (Finset.subset_insert _ _), hsize⟩ ?_
  refine reach_ensures hplaced hreached (by omega) htail fun g d' hb => hQ g d' ?_
  exact { hb with byte := fun p => (hb.byte p).trans (hbyte p) }

theorem Becomes.trans {g k : OpenInode} {n n' : Nat} {b b' : Nat → UInt8} {d' : Image}
    {F F' P' : Finset SectorId} (h : Becomes f n b g d F P) (h' : Becomes g n' b' k d' F' P') :
    Becomes f n' b' k d' F' P' where
  eq := by
    rw [h'.eq, h.eq]
  owned := by
    rw [h'.owned, h.eq]
  stored := by
    have hs := h'.stored
    rw [h.eq] at hs
    exact hs
  kind := h'.kind.trans h.kind
  size := h'.size
  byte := h'.byte

/-- A write goes on from byte `k` of its buffer, after the first `k` are in place. -/
theorem writeFrom_secures {offset k : Nat} {bytes : Bytes} (h : Stored d f.sector f.record P)
    (hk : k ≤ bytes.size) (hoffset : offset < 2 ^ 64)
    (hsize : f.record.size = lengthAfter m offset k)
    (hbyte : ∀ p, f.record.byteAt d p = overlaid c offset bytes k p) :
    (f.writeFrom offset bytes k).Secures (SafeStep c m (written offset bytes) f.sector)
      (fun x d' F' => x.1 ≤ bytes.size ∧
        (x.1 < bytes.size → dataBlocks x.2.record.size ≤ (offset + x.1) / 512) ∧
        ∃ P', Becomes f (lengthAfter m offset x.1) (overlaid c offset bytes x.1) x.2 d' F' P')
      d (insert f.sector P) := by
  induction hn : bytes.size - k using Nat.strong_induction_on generalizing f d P k with
  | _ n ih =>
    subst hn
    rw [writeFrom]
    by_cases hlt : k < bytes.size
    · have hlength : m ≤ f.record.size ∧ (0 < k → offset + k ≤ f.record.size) := by
        rw [hsize, lengthAfter]
        split <;> omega
      have hmax := h.size_le
      have hr : Reached c m (written offset bytes) d f.record := by
        refine ⟨hlength.1, fun p => ?_⟩
        rw [hbyte]
        exact overlaid_eq_or_written hk p
      rw [dif_pos hlt, bind_eq, secures_bind, secures_sum]
      refine ⟨by simp only [maxFileSize] at hmax; omega, ?_⟩
      rw [bind_eq, secures_bind]
      refine (sectorFor_secures h hr).imp ?_
      rintro ⟨e | id, g⟩ d₁ F₁ hpost
      · obtain ⟨rfl, hblocks, rfl, hd⟩ := hpost
        simp only [liftM_eq, bind_eq, pure_eq, secures_bind, secures_onStore, ensures_note,
          secures_done]
        refine ⟨hk, fun _ => hblocks, P, ⟨rfl, rfl, h.congr hd, rfl, hsize, fun p => ?_⟩⟩
        rw [h.byteAt_eq hd, hbyte]
      · obtain ⟨hid, n, P₁, hn₁, hn₂, hn₃, hb⟩ := hpost
        obtain ⟨r₁, rfl⟩ : ∃ r, g = { f with record := r } := ⟨g.record, hb.eq⟩
        obtain rfl := hb.owned
        have hsize₁ : r₁.size = n := hb.size
        have hr₁ : Reached c m (written offset bytes) d₁ r₁ :=
          hr.congr (hn₁.trans_eq hsize₁.symm) hb.byte
        simp only [liftM_eq, bind_eq, secures_bind, secures_onStore]
        obtain ⟨count, hcount⟩ : ∃ count,
            min (bytes.size - k) (512 - (offset + k) % 512) = count := ⟨_, rfl⟩
        have hbounds : 0 < count ∧ k + count ≤ bytes.size ∧ (offset + k) % 512 + count ≤ 512 := by
          omega
        obtain ⟨hpos, hend, hfit⟩ := hbounds
        rw [hcount]
        refine writeChunk_reach_ensures hb.stored hr₁ hid hfit (fun p h₁ h₂ => ?_)
          fun g₂ d₂ hb₂ => ?_
        · rw [written, if_pos (by omega), show k + (p - (offset + k)) = p - offset by omega]
        · obtain ⟨r₂, rfl⟩ : ∃ r, g₂ = { f with record := r } := ⟨g₂.record, hb₂.eq⟩
          have hsize₂ : r₂.size = lengthAfter m offset (k + count) := by
            rw [hsize] at hn₁ hn₂
            rw [show r₂.size = max r₁.size (offset + k + count) from hb₂.size, hsize₁,
              max_lengthAfter hn₁ hn₂ hpos]
          have hbyte₂ (p : Nat) : r₂.byteAt d₂ p = overlaid c offset bytes (k + count) p := by
            rw [hb₂.byte, ← overlaid_add, hb.byte, hbyte]
          have hrest := ih _ (by omega) (f := { f with record := r₂ }) hb₂.stored hend hsize₂ hbyte₂
            rfl
          refine hrest.imp ?_
          rintro x d' F' ⟨hx, hstop, P', hb'⟩
          exact ⟨hx, hstop, P', (hb.trans hb₂).trans hb'⟩
    · obtain rfl : k = bytes.size := by omega
      rw [dif_neg hlt]
      exact ⟨Nat.le_refl _, fun hk => absurd hk (Nat.lt_irrefl _), P,
        ⟨rfl, rfl, h, rfl, hsize, hbyte⟩⟩

/-- A write puts as many of its bytes as it tells over those of the file: none while writing is
denied, and otherwise all of them unless the file would have to take another block. -/
theorem writeAt_secures {offset : Nat} (bytes : Bytes) (h : Stored d f.sector f.record P)
    (hoffset : offset < 2 ^ 64) :
    (f.writeAt offset bytes).Secures (SafeStep (f.record.byteAt d) f.record.size
        (written offset bytes) f.sector)
      (fun x d' F' => x.1 ≤ bytes.size ∧ (0 < f.denials → x.1 = 0) ∧
        (x.1 < bytes.size → 0 < f.denials ∨ dataBlocks x.2.record.size ≤ (offset + x.1) / 512) ∧
        ∃ P', Becomes f (lengthAfter f.record.size offset x.1)
          (overlaid (f.record.byteAt d) offset bytes x.1) x.2 d' F' P')
      d (insert f.sector P) := by
  rw [writeAt]
  by_cases hdenied : 0 < f.denials
  · rw [if_pos hdenied]
    refine ⟨Nat.zero_le _, fun _ => rfl, fun _ => Or.inl hdenied, P, ?_⟩
    exact ⟨rfl, rfl, h, rfl, rfl, fun p => by rw [overlaid_zero]⟩
  · rw [if_neg hdenied]
    refine (writeFrom_secures h (Nat.zero_le _) hoffset rfl fun p => by rw [overlaid_zero]).imp ?_
    rintro x d' F' ⟨hx, hstop, hb⟩
    exact ⟨hx, fun hd => absurd hd hdenied, fun hlt => Or.inr (hstop hlt), hb⟩

end OpenInode

end InodeVolume

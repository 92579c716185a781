import InodeVolume.Proofs.Inode.Development
import InodeVolume.Proofs.Inode.Transfer

/-!
The calls that make an inode larger, served by a free map. Each of them, whether it succeeds or
not, leaves the inode grown from where it set out; a call that fails leaves the image as it was.
-/
namespace InodeVolume

open Program

/-- A program may touch any sector. -/
def anywhere : Nat → Prop := fun _ => True

/-- Each write is granted. -/
def anyWrite : Image → Image → Prop := fun _ _ => True

variable {m : FreeMap} {size : Nat} {o : Outset} {ids : List SectorId} {blocks : Nat}
  {r : InodeRecord} {d : Image}

/-- What was filled stays so, and what comes next is filled after it. -/
theorem Grown.filled_append {look : PointerSlot → Option SectorId} {more : List SectorId}
    {count : Nat} (h : Grown m o ids blocks r d)
    (hkept : ∀ t : PointerSlot, t.first < blocks → look t = r.pointerAt d t)
    (hmore : (PointerSlot.newIn blocks count).map look = more.map some) :
    (PointerSlot.newIn o.blocks (blocks + count - o.blocks)).map look = (ids ++ more).map some := by
  have hle := h.blocks_le
  rw [show blocks + count - o.blocks = blocks - o.blocks + count by omega,
    PointerSlot.newIn_add, show o.blocks + (blocks - o.blocks) = blocks by omega,
    List.map_append, List.map_append, hmore, ← h.filled]
  refine congrArg (· ++ _) (List.map_congr_left fun t ht => hkept t ?_)
  have hlt := (PointerSlot.mem_newIn.1 ht).2
  omega

/-- What the map hands out next brings more blocks. -/
theorem Grown.grow_ensures {d₁ : Image} {more : List SectorId} (count : Nat)
    (h : Grown m o ids blocks r d) (hands : m.HandsOut (o.used ∪ ids.toFinset) more)
    (htracks : m.Tracks d₁ (o.used ∪ ids.toFinset ∪ more.toFinset))
    (hd : ∀ n, ¬ m.InMap n → d₁ n = d n) (hcount : blocks + count ≤ maxBlocks)
    (hlength : totalSectors (blocks + count) = totalSectors blocks + more.length) :
    (r.grow blocks more count).Ensures anywhere anyWrite
      (fun x d' => x.1.length = r.length ∧ Grown m o (ids ++ more) (blocks + count) x.1 d') d₁ := by
  have hsame : r.pointerAt d₁ = r.pointerAt d := by
    refine InodeRecord.pointerAt_of_agree h.linked fun x hx => hd _ ?_
    exact h.tracks.not_inMap (owned_of_mem (h.owned hx))
  have hlinked : Linked (r.pointerAt d₁) (fun t => t.first < blocks) (r.pointers d) := by
    rw [hsame]
    exact h.linked
  have hnew : ∀ x ∈ more, x ∉ r.pointers d := fun x hx hxr => hands.notMem x hx (h.owned hxr)
  have hsub : r.pointers d ∪ more.toFinset ⊆ o.used ∪ ids.toFinset ∪ more.toFinset :=
    Finset.union_subset_union_left h.owned
  have hgrow := InodeRecord.grow_ensures count hlinked hcount hnew hands.nodup hlength
  refine hgrow.frame.mono (fun _ _ => trivial) (fun _ _ _ => trivial) ?_
  rintro ⟨r', _⟩ d' ⟨⟨g, hfilled, -⟩, hkeep⟩
  have hpointers : r'.pointers d' = r.pointers d ∪ more.toFinset := g.linked.pointers_eq
  have hkept (t : PointerSlot) (ht : t.first < blocks) : r'.pointerAt d' t = r.pointerAt d t := by
    rw [g.pointerAt_eq ht, hsame]
  refine ⟨g.extension.length, {
    valid := (InodeRecord.isValid_of_extends g.extension).trans h.valid
    kindWord := g.extension.kindWord.trans h.kindWord
    linked := by
      rw [hpointers]
      exact g.linked
    blocks_le := h.blocks_le.trans (Nat.le_add_right _ _)
    kept := fun t ht => (hkept t (Nat.lt_of_lt_of_le ht h.blocks_le)).trans (h.kept t ht)
    hands := FreeMap.HandsOut.append_iff.2 ⟨h.hands, hands⟩
    filled := h.filled_append hkept hfilled
    owned := ?_
    apart := ?_
    tracks := ?_
    frame := fun n hmap hn ho => ?_ }⟩
  · rw [hpointers, List.toFinset_append, ← Finset.union_assoc]
    exact hsub
  · rw [hpointers, Finset.mem_union, List.mem_toFinset, not_or]
    exact ⟨h.apart, fun hx => hands.notMem _ hx (Finset.mem_union_left _ o.sector_mem)⟩
  · rw [List.toFinset_append, ← Finset.union_assoc]
    exact htracks.frame fun n hn => hkeep n fun ho => hn (ho.mono hsub)
  · rw [hpointers] at ho
    have hold : ¬ Owned (r.pointers d) n := fun hr => ho (hr.mono Finset.subset_union_left)
    rw [hkeep n ho, hd n hmap, h.frame n hmap hn hold]

namespace Store

/-- A created inode has grown from nothing. -/
theorem createAt_grown {s : SectorId} {U : Finset SectorId} {length : Nat} (kind : InodeKind)
    (hm : m.Fits size) (hs : s ∈ U) (htracks : m.Tracks d U) (hlength : length ≤ maxFileSize) :
    ((createAt s length kind).serve m).Ensures anywhere anyWrite
      (fun x d' => x.2 = m ∧ (x.1 = .ok () → ∃ ids,
        Grown m (.ofCreation d s U kind hs) ids (dataBlocks length) (recordAt d' s) d')) d := by
  have hblocks := dataBlocks_le hlength
  have hfresh := Grown.fresh hs kind htracks
  rw [createAt, if_neg (Nat.not_lt.2 hblocks), bind_eq, ensures_serve_bind]
  refine (FreeMap.allocateMany_ensures hm htracks (totalSectors_lt_listLimit hblocks)).mono
    (fun _ _ => trivial) (fun _ _ _ => trivial) ?_
  rintro ⟨e | more, m'⟩ d₁ ⟨hm', hkeep, hpost⟩
  · exact ⟨hm', fun he => by cases he⟩
  · obtain rfl : m' = m := hm'
    obtain ⟨hcount, hands, htracks₁⟩ := hpost
    have hands₁ : m'.HandsOut ((Outset.ofCreation d s U kind hs).used ∪
        ([] : List SectorId).toFinset) more := by simpa [Outset.ofCreation] using hands
    have hgrow := hfresh.grow_ensures (dataBlocks length) hands₁
      (by simpa [Outset.ofCreation] using htracks₁) hkeep (by simpa using hblocks)
      (by simpa [totalSectors] using hcount.symm)
    simp only [liftM_eq, bind_eq, pure_eq, ensures_serve_bind, ensures_serve_onStore]
    refine hgrow.imp ?_
    rintro ⟨r, _⟩ d₂ ⟨-, hgrown⟩
    simp only [ensures_serve_word, ensures_store, ensures_note, ensures_serve_done]
    refine ⟨lt_word_of_le hlength, trivial, trivial, trivial, fun _ => ⟨more, ?_⟩⟩
    have hsync := hgrown.sync length (encode (r.withLength length))
    rw [Nat.zero_add, List.nil_append] at hsync
    change Grown m' _ more _ (recordAt (Function.update d₂ s.index (encode (r.withLength length))) s)
      (Function.update d₂ s.index (encode (r.withLength length)))
    rwa [recordAt_update_self]

end Store

namespace OpenInode

variable {f : OpenInode}

/-- An open inode has grown from where it set out. -/
structure Developed (m : FreeMap) (o : Outset) (f : OpenInode) (d : Image) : Prop where
  sector : f.sector = o.sector
  size_le : f.record.size ≤ maxFileSize
  grown : ∃ ids, Grown m o ids (dataBlocks f.record.size) f.record d

namespace Developed

theorem blocks_le (h : Developed m o f d) : dataBlocks f.record.size ≤ maxBlocks :=
  dataBlocks_le h.size_le

theorem exists_blockAt (h : Developed m o f d) {i : Nat} (hi : i < dataBlocks f.record.size) :
    ∃ id, f.record.blockAt d i = some id := by
  obtain ⟨ids, hgrown⟩ := h.grown
  obtain ⟨a, rfl⟩ := BlockAddress.exists_toIndex_eq (hi.trans_le h.blocks_le)
  rw [InodeRecord.blockAt_toIndex]
  exact hgrown.linked.exists_some (s := .data a) hi

theorem lt_dataBlocks (h : Developed m o f d) {i : Nat} {id : SectorId}
    (hi : f.record.blockAt d i = some id) : i < dataBlocks f.record.size := by
  obtain ⟨ids, hgrown⟩ := h.grown
  obtain ⟨a, rfl, ha⟩ := InodeRecord.blockAt_eq_some_iff.1 hi
  exact (hgrown.linked.isSome_iff (.data a)).1 (Option.isSome_of_eq_some ha)

/-- The record is written with the length for which the blocks have been brought. -/
theorem of_sync {n : Nat} {r' : InodeRecord} {d' : Image} (hsector : f.sector = o.sector)
    (hn : n ≤ maxFileSize) (hgrown : Grown m o ids (dataBlocks n) r' d') (s : Sector) :
    Developed m o { f with record := r'.withLength n } (Function.update d' f.sector.index s) where
  sector := hsector
  size_le := (InodeRecord.size_withLength hn).trans_le hn
  grown := by
    rw [InodeRecord.size_withLength hn, hsector]
    exact ⟨ids, hgrown.sync n s⟩

end Developed

theorem growTo_grown (blocks : Nat) (hm : m.Fits size) (h : Developed m o f d)
    (hblocks : blocks ≤ maxBlocks) :
    ((f.growTo blocks).serve m).Ensures anywhere anyWrite
      (fun x d' => x.2 = m ∧ match x.1 with
        | .error _ => d' = d
        | .ok g => ∃ r' ids, g = { f with record := r' } ∧ r'.size = f.record.size ∧
          Grown m o ids (max (dataBlocks f.record.size) blocks) r' d') d := by
  obtain ⟨ids, hgrown⟩ := h.grown
  rw [growTo]
  by_cases hle : blocks ≤ dataBlocks f.size
  · rw [if_pos hle]
    refine ⟨rfl, f.record, ids, rfl, rfl, ?_⟩
    rwa [Nat.max_eq_left (show blocks ≤ dataBlocks f.record.size from hle)]
  · rw [if_neg hle]
    have hlt : dataBlocks f.record.size < blocks := Nat.lt_of_not_le hle
    have hmono := totalSectors_mono (Nat.le_of_lt hlt)
    have hsum : dataBlocks f.record.size + (blocks - dataBlocks f.record.size) = blocks := by omega
    simp only [bind_eq, pure_eq, ensures_serve_bind, ensures_serve_difference]
    refine ⟨hmono, ?_⟩
    refine (FreeMap.allocateMany_ensures hm hgrown.tracks (Nat.lt_of_le_of_lt (Nat.sub_le _ _)
      (totalSectors_lt_listLimit hblocks))).mono (fun _ _ => trivial) (fun _ _ _ => trivial) ?_
    rintro ⟨e | more, m'⟩ d₁ ⟨hm', hkeep, hpost⟩
    · exact ⟨hm', hpost⟩
    · obtain rfl : m' = m := hm'
      obtain ⟨hlength, hands, htracks⟩ := hpost
      change more.length = totalSectors blocks - totalSectors (dataBlocks f.record.size) at hlength
      have hgrow := hgrown.grow_ensures (blocks - dataBlocks f.record.size) hands htracks
        hkeep (by rwa [hsum]) (by rw [hsum, hlength]; omega)
      rw [hsum] at hgrow
      simp only [liftM_eq, ensures_serve_bind, ensures_serve_onStore, ensures_note,
        ensures_serve_done]
      refine hgrow.imp ?_
      rintro ⟨r', _⟩ d₂ ⟨hsame, hgrown'⟩
      refine ⟨trivial, r', ids ++ more, rfl, ?_, ?_⟩
      · rw [InodeRecord.size, hsame, InodeRecord.size]
      · rwa [Nat.max_eq_right (Nat.le_of_lt hlt)]

/-- What a call that enlarges an inode leaves: the inode as it was, or one that has grown on. -/
def Enlarges (m : FreeMap) (o : Outset) (f : OpenInode) (d : Image) (position : Nat)
    (x : (Except VolumeError SectorId × OpenInode) × FreeMap) (d' : Image) : Prop :=
  x.2 = m ∧ match x.1 with
    | (.error _, g) => g = f ∧ d' = d
    | (.ok id, g) => Developed m o g d' ∧ g = { f with record := g.record } ∧
      g.record.blockAt d' (position / 512) = some id

theorem syncAt_grown {r' : InodeRecord} {d' : Image} {n target : Nat}
    (h : Developed m o f d) (hgrown : Grown m o ids (dataBlocks n) r' d') (hn : n ≤ maxFileSize)
    (htarget : target / 512 < dataBlocks n) :
    ((syncAt { f with record := r'.withLength n } target).serve m).Ensures anywhere anyWrite
      (Enlarges m o f d target) d' := by
  have hdeveloped := Developed.of_sync h.sector hn hgrown (encode (r'.withLength n))
  obtain ⟨id, hid⟩ := hdeveloped.exists_blockAt (i := target / 512)
    (by rwa [InodeRecord.size_withLength hn])
  simp only [syncAt, sync, liftM_eq, bind_eq, pure_eq, ensures_serve_bind, ensures_serve_onStore,
    ensures_store, ensures_serve_getOrBreach, ensures_serve_done]
  refine ⟨trivial, trivial, ?_⟩
  exact InodeRecord.blockSector_ensures (fun _ _ _ => trivial)
    ⟨id, hid, rfl, hdeveloped, rfl, hid⟩

theorem extend_grown (target : Nat) (hm : m.Fits size) (h : Developed m o f d) :
    ((f.extend target).serve m).Ensures anywhere anyWrite
      (Enlarges m o f d target) d := by
  rw [extend_eq]
  by_cases hlarge : maxBlocks ≤ target / 512
  · rw [if_pos hlarge]
    exact ⟨rfl, rfl, rfl⟩
  · rw [if_neg hlarge, ensures_serve_bind]
    refine (growTo_grown (target / 512 + 1) hm h (by omega)).imp ?_
    rintro ⟨e | g, m'⟩ d₁ ⟨hm', hpost⟩
    · exact ⟨hm', rfl, hpost⟩
    · obtain rfl : m' = m := hm'
      obtain ⟨r', ids, rfl, hsize, hgrown⟩ := hpost
      have htarget : target + 1 ≤ maxFileSize := lt_maxFileSize_iff.2 (Nat.lt_of_not_le hlarge)
      have hn : max f.record.size (target + 1) ≤ maxFileSize := Nat.max_le.2 ⟨h.size_le, htarget⟩
      have hblocks := dataBlocks_max_succ f.record.size target
      have hlt : target / 512 < dataBlocks (max f.record.size (target + 1)) := by
        rw [hblocks]
        omega
      rw [← hblocks] at hgrown
      have hsize : ({ f with record := r' } : OpenInode).size = f.record.size := hsize
      dsimp only
      rw [settle_eq htarget, hsize]
      exact syncAt_grown h hgrown hn hlt

/-- The byte gets a sector, for which the file may become longer. -/
theorem sectorFor_grown (position : Nat) (hm : m.Fits size) (h : Developed m o f d) :
    ((f.sectorFor position).serve m).Ensures anywhere anyWrite
      (Enlarges m o f d position) d := by
  rw [sectorFor, bind_eq, ensures_serve_bind]
  simp only [liftM_eq, ensures_serve_onStore]
  refine InodeRecord.sectorOf_ensures (fun _ _ _ => trivial) ?_
  cases hx : (if f.record.size < position then none else f.record.blockAt d (position / 512)) with
  | some id =>
    by_cases hlt : f.record.size < position
    · rw [if_pos hlt] at hx
      cases hx
    · rw [if_neg hlt] at hx
      exact ⟨rfl, h, rfl, hx⟩
  | none => exact extend_grown position hm h

theorem writeChunk_developed {start count first : Nat} {bytes : Bytes} {id : SectorId}
    (h : Developed m o f d) (hid : f.record.blockAt d (start / 512) = some id)
    (hfit : start % 512 + count ≤ 512) :
    (writeChunk id (start % 512) count bytes first).Ensures anywhere anyWrite
      (fun _ d' => Developed m o f d') d := by
  obtain ⟨ids, hgrown⟩ := h.grown
  obtain ⟨a, -, ha⟩ := InodeRecord.blockAt_eq_some_iff.1 hid
  exact writeChunk_ensures hfit trivial trivial ⟨h.sector, h.size_le, ids, hgrown.write ha _⟩

/-- The end of the file moves within the blocks that there are. -/
theorem reach_developed {stop : Nat} (h : Developed m o f d)
    (hstop : stop ≤ 512 * dataBlocks f.record.size) :
    (f.reach stop).Ensures anywhere anyWrite
      (fun g d' => Developed m o g d' ∧ g = { f with record := g.record } ∧
        stop ≤ g.record.size) d := by
  rw [reach]
  by_cases hle : stop ≤ f.size
  · rw [if_pos hle]
    exact ⟨h, rfl, hle⟩
  · have hn := le_maxFileSize_of_le h.size_le hstop
    have hlt : f.record.size < stop := Nat.lt_of_not_le hle
    obtain ⟨ids, hgrown⟩ := h.grown
    rw [← dataBlocks_eq_of_le hlt hstop] at hgrown
    rw [if_neg hle, resized_done hn]
    simp only [sync, bind_eq, pure_eq, done_bind, ensures_bind, ensures_store, ensures_done]
    exact ⟨trivial, trivial, .of_sync h.sector hn hgrown _, trivial,
      (InodeRecord.size_withLength hn).ge⟩

/-- How a call on an open inode ends: the inode has grown on from where it set out. -/
def Develops {α : Type} (m : FreeMap) (o : Outset) (f : OpenInode) (x : (α × OpenInode) × FreeMap)
    (d' : Image) : Prop :=
  x.2 = m ∧ x.1.2 = { f with record := x.1.2.record } ∧ Developed m o x.1.2 d'

theorem extend_develops (target : Nat) (hm : m.Fits size) (h : Developed m o f d) :
    ((f.extend target).serve m).Ensures anywhere anyWrite (Develops m o f) d := by
  refine (extend_grown target hm h).imp ?_
  rintro ⟨⟨e | id, g⟩, m'⟩ d' ⟨hm', hpost⟩
  · obtain ⟨rfl, rfl⟩ := hpost
    exact ⟨hm', rfl, h⟩
  · exact ⟨hm', hpost.2.1, hpost.1⟩

/-- A write goes on from byte `k` of its buffer, where the file ends or later. -/
theorem writeFrom_develops {offset k : Nat} {bytes : Bytes} (hm : m.Fits size)
    (h : Developed m o f d) (hk : offset + k < 2 ^ 64) :
    ((f.writeFrom offset bytes k).serve m).Ensures anywhere anyWrite (Develops m o f) d := by
  induction hn : bytes.size - k using Nat.strong_induction_on generalizing f d k with
  | _ n ih =>
    subst hn
    rw [writeFrom]
    by_cases hlt : k < bytes.size
    · rw [dif_pos hlt, bind_eq, ensures_serve_bind, ensures_serve_sum]
      refine ⟨hk, ?_⟩
      rw [bind_eq, ensures_serve_bind]
      refine (sectorFor_grown (offset + k) hm h).imp ?_
      rintro ⟨⟨e | id, g⟩, m'⟩ d₁ ⟨hm', hpost⟩
      · obtain rfl : m' = m := hm'
        obtain ⟨rfl, rfl⟩ := hpost
        simp only [liftM_eq, bind_eq, pure_eq, ensures_serve_bind, ensures_serve_onStore,
          ensures_note, ensures_serve_done]
        exact ⟨rfl, rfl, h⟩
      · obtain rfl : m' = m := hm'
        obtain ⟨hg, hgf, hid⟩ := hpost
        obtain ⟨count, hcount⟩ : ∃ count,
            min (bytes.size - k) (512 - (offset + k) % 512) = count := ⟨_, rfl⟩
        have hblock := hg.lt_dataBlocks hid
        simp only [liftM_eq, bind_eq, ensures_serve_bind, ensures_serve_onStore]
        rw [hcount]
        refine (writeChunk_developed hg hid (by omega)).imp fun _ d₂ hg₂ => ?_
        refine (reach_developed hg₂ (by omega)).imp fun g₃ d₃ hpost₃ => ?_
        obtain ⟨hg₃, hgf₃, hstop⟩ := hpost₃
        have hmax := hg₃.size_le
        refine (ih _ (by omega) hg₃ (by simp only [maxFileSize] at hmax; omega) rfl).imp ?_
        rintro x d' ⟨hx, hxf, hdeveloped⟩
        refine ⟨hx, ?_, hdeveloped⟩
        rw [hxf, hgf₃, hgf]
    · rw [dif_neg hlt]
      exact ⟨rfl, rfl, h⟩

theorem writeAt_develops {offset : Nat} (bytes : Bytes) (hm : m.Fits size)
    (h : Developed m o f d) (hoffset : offset < 2 ^ 64) :
    ((f.writeAt offset bytes).serve m).Ensures anywhere anyWrite (Develops m o f) d := by
  rw [writeAt]
  by_cases hdenied : 0 < f.denials
  · rw [if_pos hdenied]
    exact ⟨rfl, rfl, h⟩
  · rw [if_neg hdenied]
    exact writeFrom_develops hm h hoffset

end OpenInode

end InodeVolume

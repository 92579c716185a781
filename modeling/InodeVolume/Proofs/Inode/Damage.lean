import InodeVolume.Proofs.Inode.Transfer
import Mathlib.Order.Bounds.Basic

/-!
Reading an inode whose record may be damaged: any length, and pointers to anything, be it outside
the device or in a circle. A read stops at the first byte that has no sector, or where the device
refuses one; it fills as much of the buffer as it has read and changes nothing else.
-/
namespace InodeVolume

/-- The slots whose pointers lead to a block. -/
def BlockAddress.path : BlockAddress → List PointerSlot
  | direct i => [.data (.direct i)]
  | indirect outer inner => [.index (.indirect outer), .data (.indirect outer inner)]
  | doubleIndirect outer inner =>
    [.index .double, .index (.doubleEntry outer), .data (.doubleIndirect outer inner)]

namespace InodeRecord

variable {r : InodeRecord} {d : Image}

/-- A block that can be addressed, with all pointers on the way to it. -/
def Mapped (r : InodeRecord) (d : Image) (index : Nat) : Prop :=
  index < maxBlocks ∧
    ∀ a : BlockAddress, a.toIndex = index → ∀ s ∈ a.path, (r.pointerAt d s).isSome

/-- A pointer leads to sector `n`. -/
def PointsTo (r : InodeRecord) (d : Image) (n : Nat) : Prop :=
  ∃ s id, r.pointerAt d s = some id ∧ id.index = n

/-- Whether `k` bytes can be read of the `count` that are wanted from byte `first` on. -/
def Readable (r : InodeRecord) (d : Image) (first count k : Nat) : Prop :=
  k ≤ min count (r.size - first) ∧ ∀ p, first ≤ p → p < first + k → r.Mapped d (p / 512)

theorem isSome_dataAt_iff {a : BlockAddress} :
    (r.dataAt d a).isSome ↔ ∀ s ∈ a.path, (r.pointerAt d s).isSome := by
  cases a with
  | direct i => simp [BlockAddress.path]
  | indirect outer inner =>
    cases hx : slot r.indirect outer <;> simp [BlockAddress.path, hx]
  | doubleIndirect outer inner =>
    cases hx : r.doubleIndirect with
    | none => simp [BlockAddress.path, hx]
    | some x => cases hy : entry d (some x) outer <;> simp [BlockAddress.path, hx, hy]

theorem mapped_iff {index : Nat} : r.Mapped d index ↔ (r.blockAt d index).isSome := by
  constructor
  · rintro ⟨hlt, hpath⟩
    obtain ⟨a, rfl⟩ := BlockAddress.exists_toIndex_eq hlt
    rw [blockAt_toIndex, isSome_dataAt_iff]
    exact hpath a rfl
  · intro h
    obtain ⟨id, hid⟩ := Option.isSome_iff_exists.1 h
    obtain ⟨a, rfl, ha⟩ := blockAt_eq_some_iff.1 hid
    refine ⟨a.toIndex_lt, fun b hb => ?_⟩
    rw [BlockAddress.toIndex_injective hb, ← isSome_dataAt_iff, ha]
    rfl

/-- Where a read ends is as far as the bytes can be read. -/
theorem StopsAfter.isGreatest {first count k : Nat}
    (h : r.StopsAfter d first (min count (r.size - first)) k) :
    IsGreatest {k | r.Readable d first count k} k := by
  refine ⟨⟨h.le, fun p h₁ h₂ => mapped_iff.2 (h.mapped p h₁ h₂)⟩, fun m hm => ?_⟩
  obtain ⟨hle, hmapped⟩ := hm
  rcases h.stops with rfl | hnone
  · exact hle
  · by_contra hlt
    have hsome := mapped_iff.1 (hmapped (first + k) (Nat.le_add_right _ _) (by omega))
    rw [hnone] at hsome
    cases hsome

end InodeRecord

section Buffers

variable {n i : Nat}

/-- A buffer that begins with some bytes and goes on as before. -/
def startingWith (buffer : Vector UInt8 n) (bytes : Bytes) : Vector UInt8 n :=
  Vector.ofFn fun i => if _ : i.val < bytes.size then bytes[i] else buffer[i]

theorem getElem_startingWith {buffer : Vector UInt8 n} {bytes : Bytes} (hi : i < n) :
    (startingWith buffer bytes)[i] = if h : i < bytes.size then bytes[i] else buffer[i] := by
  simp [startingWith]

theorem startingWith_empty (buffer : Vector UInt8 n) : startingWith buffer #[] = buffer := by
  apply Vector.ext
  intro i hi
  rw [getElem_startingWith hi]
  exact dif_neg (Nat.not_lt_zero i)

theorem Sector.getElem_copyTo {s : Sector} {skip count first : Nat} {buffer : Vector UInt8 n}
    (hs : skip + count ≤ 512) (hb : first + count ≤ n) (hi : i < n) :
    (s.copyTo skip count buffer first hs hb)[i] =
      if h : first ≤ i ∧ i < first + count then s[skip + (i - first)] else buffer[i] := by
  simp [copyTo]

/-- The next bytes are copied from a sector. -/
theorem copyTo_startingWith {s : Sector} {skip count : Nat} {buffer : Vector UInt8 n}
    {bytes : Bytes} (hs : skip + count ≤ 512) (hb : bytes.size + count ≤ n) :
    s.copyTo skip count (startingWith buffer bytes) bytes.size hs hb =
      startingWith buffer (bytes ++ s.toArray.extract skip (skip + count)) := by
  have hsize : (bytes ++ s.toArray.extract skip (skip + count)).size = bytes.size + count := by
    simp
    omega
  apply Vector.ext
  intro i hi
  rw [Sector.getElem_copyTo hs hb hi, getElem_startingWith hi, getElem_startingWith hi]
  simp only [hsize]
  by_cases hold : i < bytes.size
  · rw [dif_neg (by omega), dif_pos hold, dif_pos (by omega)]
    exact (Array.getElem_append_left hold).symm
  · by_cases hnew : i < bytes.size + count
    · rw [dif_pos ⟨Nat.le_of_not_lt hold, hnew⟩, dif_pos hnew,
        Array.getElem_append_right (Nat.le_of_not_lt hold)]
      simp
    · rw [dif_neg (by omega), dif_neg hold, dif_neg hnew]

end Buffers

namespace OpenInode

open Program

variable {f : OpenInode} {n : Nat}

theorem fillFrom_eq {buffer buffer' : Vector UInt8 n} {obtained : Bytes}
    {position stop filled : Nat} (room : filled + (stop - position) ≤ n)
    (hfilled : filled = obtained.size) (hbuffer : buffer' = startingWith buffer obtained) :
    f.fillFrom position stop buffer' filled room =
      (f.readFrom obtained position stop).bind fun bytes =>
        done (bytes.size, startingWith buffer bytes) := by
  induction hn : stop - position using Nat.strong_induction_on
    generalizing obtained position filled buffer' with
  | _ m ih =>
    subst hn hfilled hbuffer
    rw [fillFrom, readFrom]
    by_cases hlt : position < stop
    · rw [dif_pos hlt, dif_pos hlt]
      simp only [bind_eq, bind_bind]
      refine congrArg _ (funext fun place => ?_)
      cases place with
      | none => rfl
      | some id =>
        simp only [bind_bind]
        refine congrArg _ (funext fun s => ih _ (by omega) _ ?_ (copyTo_startingWith _ _) rfl)
        simp
        omega
    · rw [dif_neg hlt, dif_neg hlt]
      rfl

/-- What is read into a buffer is what `readAt` answers. -/
theorem readInto_eq (offset : Nat) (buffer : Vector UInt8 n) : f.readInto offset buffer =
    (f.readAt offset n).bind fun bytes => done (bytes.size, startingWith buffer bytes) := by
  rw [readInto, readAt]
  by_cases hle : f.size ≤ offset
  · rw [if_pos hle, if_pos hle]
    simp [startingWith_empty]
  · rw [if_neg hle, if_neg hle]
    simp only [sum, require, bind_eq, bind_bind, pure_eq]
    split
    · simp only [done_bind]
      exact fillFrom_eq _ rfl (startingWith_empty buffer).symm
    · rfl

variable {A : Nat → Prop} {G : Image → Image → Prop} {Q : Nat × Vector UInt8 n → Image → Prop}
  {d : Image}

/-- A read fills as much of the buffer as can be read. -/
theorem readInto_ensures {offset : Nat} {buffer : Vector UInt8 n}
    (hA : ∀ s id, f.record.pointerAt d s = some id → A id.index) (hn : n < 0x8000000000000000)
    (hQ : ∀ k buffer', IsGreatest {k | f.record.Readable d offset n k} k →
      (∀ i, (hi : i < n) → buffer'[i] =
        if i < k then f.record.byteAt d (offset + i) else buffer[i]) → Q (k, buffer') d) :
    (f.readInto offset buffer).Ensures A G Q d := by
  rw [readInto_eq, ensures_bind]
  refine readAt_stops hA hn fun k hk => ?_
  rw [ensures_done, InodeRecord.size_bytesFrom]
  refine hQ k _ hk.isGreatest fun i hi => ?_
  rw [getElem_startingWith hi]
  simp only [InodeRecord.size_bytesFrom]
  split
  · simp [InodeRecord.bytesFrom]
  · rfl

end OpenInode

end InodeVolume

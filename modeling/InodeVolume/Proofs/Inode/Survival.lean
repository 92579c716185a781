import InodeVolume.Proofs.Inode.Stored
import InodeVolume.Proofs.Program.Allocation

/-!
What a cut leaves of an inode. While an inode of `m` bytes `c` is extended or written to, each
sector write leaves a device on which the inode survives: it is no shorter than before, all blocks
that its length asks for are there, and each byte is the old one or one that `w` puts there. The
length on the device never shrinks on the way.
-/
namespace InodeVolume

structure Survives (c : Nat → UInt8) (m : Nat) (w : Nat → Option UInt8) (s : SectorId)
    (F : Finset SectorId) (d : Image) : Prop where
  valid : (recordAt d s).isValid = true
  size_ge : m ≤ (recordAt d s).size
  mapped (i : Nat) : i < dataBlocks (recordAt d s).size →
    ∃ id ∈ F, (recordAt d s).blockAt d i = some id
  injective {i j : Nat} {id : SectorId} : i < dataBlocks (recordAt d s).size →
    j < dataBlocks (recordAt d s).size → (recordAt d s).blockAt d i = some id →
    (recordAt d s).blockAt d j = some id → i = j
  byte (p : Nat) : p < (recordAt d s).size → (recordAt d s).byteAt d p = c p ∨
    w p = some ((recordAt d s).byteAt d p)

/-- A write after which the inode survives, and which does not make it shorter. -/
def SafeStep (c : Nat → UInt8) (m : Nat) (w : Nat → Option UInt8) (s : SectorId)
    (F : Finset SectorId) (d₁ d₂ : Image) : Prop :=
  Survives c m w s F d₂ ∧ (recordAt d₁ s).size ≤ (recordAt d₂ s).size

/-- How far the change has come: each byte is the old one or one that `w` puts there. -/
structure Reached (c : Nat → UInt8) (m : Nat) (w : Nat → Option UInt8) (d : Image)
    (r : InodeRecord) : Prop where
  size_ge : m ≤ r.size
  byte (p : Nat) : r.byteAt d p = c p ∨ w p = some (r.byteAt d p)

variable {c : Nat → UInt8} {m : Nat} {w : Nat → Option UInt8} {s : SectorId} {r : InodeRecord}
  {P F : Finset SectorId} {d d' d₁ d₂ : Image}

theorem Reached.congr {r' : InodeRecord} (h : Reached c m w d r) (hsize : r.size ≤ r'.size)
    (hbyte : ∀ p, r'.byteAt d' p = r.byteAt d p) : Reached c m w d' r' where
  size_ge := h.size_ge.trans hsize
  byte p := by
    rw [hbyte]
    exact h.byte p

namespace Placed

/-- The inode survives as long as its record and the blocks that it has are left alone. -/
theorem survives_of_preserves (h : Placed d s r P) (hr : Reached c m w d r) (hF : P ⊆ F)
    (hs : d₂ s.index = d s.index) (hp : InodeRecord.Preserves (dataBlocks r.size) r d d₂) :
    Survives c m w s F d₂ := by
  have hrecord : recordAt d₂ s = r := (recordAt_congr hs).trans h.onDisk
  exact {
    valid := by rw [hrecord, h.valid]
    size_ge := by
      rw [hrecord]
      exact hr.size_ge
    mapped := by
      rw [hrecord]
      intro i hi
      obtain ⟨id, hid, hat⟩ := h.exists_blockAt hi
      exact ⟨id, hF hid, (hp.blockAt_eq hi).trans hat⟩
    injective := by
      rw [hrecord]
      intro i j id hi hj hit hjt
      rw [hp.blockAt_eq hi] at hit
      rw [hp.blockAt_eq hj] at hjt
      exact InodeRecord.blockAt_injective h.linked hit hjt
    byte := by
      rw [hrecord]
      intro p hlt
      rw [hp.byteAt_eq (div_lt_dataBlocks hlt)]
      exact hr.byte p }

theorem survives (h : Placed d s r P) (hr : Reached c m w d r) (hF : P ⊆ F) :
    Survives c m w s F d :=
  h.survives_of_preserves hr hF rfl (.refl _ r d)

/-- A step that the inode on the device does not take part in is safe. -/
theorem safeStep (h : Placed d s r P) (hr : Reached c m w d r) (hF : P ⊆ F)
    (h₁ : d₁ s.index = d s.index) (h₂ : d₂ s.index = d s.index)
    (hp : InodeRecord.Preserves (dataBlocks r.size) r d d₂) : SafeStep c m w s F d₁ d₂ := by
  refine ⟨h.survives_of_preserves hr hF h₂ hp, ?_⟩
  rw [recordAt_congr h₁, recordAt_congr h₂]

theorem preserves_of_agree (h : Placed d s r P) (hd : Agree (insert s P) d d') (n : Nat) :
    InodeRecord.Preserves n r d d' where
  pointer t _ := by
    rw [InodeRecord.pointerAt_of_agree h.linked (hd.mono (Finset.subset_insert s P))]
  content {a id} _ hid :=
    hd id (Finset.mem_insert_of_mem (h.linked.mem (s := .data a) hid))

theorem lenient (h : Placed d s r P) (hr : Reached c m w d r) :
    Lenient (SafeStep c m w s) (insert s P) d := by
  intro F d₁ d₂ hF h₁ h₂
  have hs : s ∈ insert s P := Finset.mem_insert_self s P
  exact h.safeStep hr ((Finset.subset_insert s P).trans hF) (h₁ s hs) (h₂ s hs)
    (h.preserves_of_agree h₂ _)

end Placed

end InodeVolume

import InodeVolume.Device.HostFile
import InodeVolume.Device.SectorArray
import Mathlib.Logic.Function.Basic
import Mathlib.Tactic.Common

/-!
The image of a device: what each of its sectors holds. A lawful device answers every access below
its size from its image and changes the image in the one sector that is written. Both the array in
memory and the file of the host are lawful.
-/
namespace InodeVolume

/-- A position within its sector. -/
theorem mod_lt_sectorSize (position : Nat) : position % 512 < 512 :=
  Nat.mod_lt position (by decide)

abbrev Image := Nat → Sector

class LawfulBlockDevice (δ : Type) [BlockDevice δ] where
  size : δ → Nat
  image : δ → Image
  readBlock_eq {d : δ} {n : Nat} (h : n < size d) : BlockDevice.readBlock d n 512 = .ok (image d n)
  acceptWrite_eq {d : δ} {n : Nat} (h : n < size d) : BlockDevice.acceptWrite d n 512 = .ok ⟨rfl⟩
  image_put {d : δ} {n : Nat} (s : Sector) (h : n < size d) :
    image (BlockDevice.put d n s) = Function.update (image d) n s
  size_put {d : δ} {n : Nat} (s : Sector) (h : n < size d) : size (BlockDevice.put d n s) = size d

namespace SectorArray

instance : LawfulBlockDevice SectorArray where
  size d := d.sectors.size
  image d n := d.sectors.getD n Sector.zero
  readBlock_eq {d n} h := by
    simp [BlockDevice.readBlock, h]
  acceptWrite_eq h := if_pos h
  image_put {d n} s h := by
    funext m
    by_cases hm : m = n
    · subst hm
      simp [BlockDevice.put, h]
    · have hm' : n ≠ m := fun he => hm he.symm
      simp [BlockDevice.put, hm, hm']
  size_put {d n} s h := by
    simp [BlockDevice.put]

theorem image_filled {count : Nat} {byte : UInt8} {n : Nat} (hn : n < count) :
    LawfulBlockDevice.image (filled count byte) n = Vector.replicate 512 byte := by
  simp [LawfulBlockDevice.image, filled, hn]

end SectorArray

namespace HostFile

theorem sectorAt_put (f : HostFile) (n m : Nat) (s : Sector) :
    (BlockDevice.put f n s).sectorAt m = Function.update f.sectorAt n s m := by
  apply Vector.ext
  intro i hi
  have hd : (512 * m + i) / 512 = m := by omega
  have hr : (512 * m + i) % 512 = i := by omega
  rw [getElem_sectorAt, byteAt_put]
  by_cases hm : n = m
  · subst hm
    simp [hd, hr]
  · have hm' : m ≠ n := fun he => hm he.symm
    simp [hd, hm, hm', getElem_sectorAt]

/-- The part of the file that fills whole sectors. -/
instance : LawfulBlockDevice HostFile where
  size f := f.length / 512
  image f := f.sectorAt
  readBlock_eq {f n} h := by
    have hl : 512 * n + 512 ≤ f.length := by omega
    simp [BlockDevice.readBlock, hl]
  acceptWrite_eq _ := rfl
  image_put {f n} s h := funext fun m => sectorAt_put f n m s
  size_put {f n} s h := by
    have hl : max f.length (512 * n + 512) = f.length := by omega
    simp [BlockDevice.put, hl]

end HostFile

section Replay

open LawfulBlockDevice

variable {δ : Type} [BlockDevice δ]

/-- A device after some writes. -/
def replay (d : δ) (writes : List (Nat × Sector)) : δ :=
  writes.foldl (fun d w => BlockDevice.put d w.1 w.2) d

def Image.replay (d : Image) (writes : List (Nat × Sector)) : Image :=
  writes.foldl (fun d w => Function.update d w.1 w.2) d

variable [LawfulBlockDevice δ]

theorem image_replay {d : δ} {writes : List (Nat × Sector)} (h : ∀ w ∈ writes, w.1 < size d) :
    image (replay d writes) = (image d).replay writes ∧ size (replay d writes) = size d := by
  induction writes generalizing d with
  | nil => exact ⟨rfl, rfl⟩
  | cons w rest ih =>
    have hw : w.1 < size d := h w (by simp)
    have hs : size (BlockDevice.put d w.1 w.2) = size d := size_put w.2 hw
    have hrest : ∀ v ∈ rest, v.1 < size (BlockDevice.put d w.1 w.2) := fun v hv => by
      rw [hs]
      exact h v (by simp [hv])
    obtain ⟨hi, hsize⟩ := ih hrest
    refine ⟨?_, hsize.trans hs⟩
    rw [image_put w.2 hw] at hi
    exact hi

end Replay

end InodeVolume

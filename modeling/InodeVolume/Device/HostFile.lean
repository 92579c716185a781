import InodeVolume.Device.Basic
import InodeVolume.Digest
import Std.Data.HashMap

/-!
A file as a device. Sector `n` is the 512 bytes from byte `512 * n` on. A write past the end
makes the file longer, and bytes that nobody has written are zero.
-/
namespace InodeVolume

structure HostFile where
  length : Nat
  /-- The bytes before the first write of a block; the file is zero beyond them. -/
  initial : Bytes
  blocks : Std.HashMap Nat Sector

namespace HostFile

def ofBytes (bytes : Bytes) : HostFile := ⟨bytes.size, bytes, ∅⟩

/-- A file of `length` zero bytes. -/
def blank (length : Nat) : HostFile := ⟨length, #[], ∅⟩

def byteAt (f : HostFile) (position : Nat) : UInt8 :=
  match f.blocks[position / 512]? with
  | some s => s[position % 512]
  | none => f.initial.getD position 0

def sectorAt (f : HostFile) (index : Nat) : Sector :=
  match f.blocks[index]? with
  | some s => s
  | none =>
    if f.initial.size ≤ 512 * index then Sector.zero
    else Vector.ofFn fun i => f.initial.getD (512 * index + i) 0

theorem getElem_sectorAt (f : HostFile) (index i : Nat) (h : i < 512) :
    (f.sectorAt index)[i] = f.byteAt (512 * index + i) := by
  have hd : (512 * index + i) / 512 = index := by omega
  have hm : (512 * index + i) % 512 = i := by omega
  unfold sectorAt byteAt
  simp only [hd, hm]
  split
  · rfl
  · split
    · have hi : ¬ 512 * index + i < f.initial.size := by omega
      simp [hi]
    · simp

instance : BlockDevice HostFile where
  readBlock f index length :=
    if 512 * index + length ≤ f.length ∨ length = 0 then
      if h : 512 = length then .ok ((f.sectorAt index).cast h)
      else .ok (Vector.ofFn fun i => f.byteAt (512 * index + i))
    else .error .incompleteBlock
  acceptWrite _ _ length :=
    if h : length = 512 then .ok ⟨h⟩ else .error .incompleteBlock
  put f index s :=
    match f with
    | ⟨length, initial, blocks⟩ =>
      ⟨max length (512 * index + 512), initial, blocks.insert index s⟩
  content f index :=
    if 512 * index + 512 ≤ f.length then (f.sectorAt index).toArray
    else (f.sectorAt index).toArray.take (f.length - 512 * index)

theorem byteAt_put (f : HostFile) (index position : Nat) (s : Sector) :
    (BlockDevice.put f index s).byteAt position =
      if index = position / 512 then s[position % 512] else f.byteAt position := by
  simp only [byteAt, BlockDevice.put, Std.HashMap.getElem?_insert]
  by_cases h : index = position / 512 <;> simp [h]

/-- The digest of all bytes. -/
def digest (f : HostFile) : Digest :=
  Nat.fold ((f.length + 511) / 512) (fun i _ d => d.addBytes (BlockDevice.content f i)) Digest.seed

def toBytes (f : HostFile) : Bytes :=
  Array.ofFn fun i : Fin f.length => f.byteAt i

end HostFile

end InodeVolume

import InodeVolume.Sector.Layout

/-!
The super block, in sector 0: it tells a formatted device from any other and locates the free map
and the root directory.
-/
namespace InodeVolume

structure SuperBlock where
  magic : UInt32
  total : UInt32
  bitmapSectors : UInt32
  root : UInt32
  reserved : Vector UInt32 124
  deriving DecidableEq

namespace SuperBlock

def magicWord : UInt32 := 0x49444653

def new (total bitmapSectors : UInt32) (root : SectorId) : SuperBlock :=
  ⟨magicWord, total, bitmapSectors, root.word, Vector.replicate 124 0⟩

def isValid (b : SuperBlock) : Bool := b.magic == magicWord

def toWords (b : SuperBlock) : Vector UInt32 128 :=
  Vector.ofFn fun i =>
    if h : i.val < 4 then #v[b.magic, b.total, b.bitmapSectors, b.root][i.val]
    else b.reserved[i.val - 4]

def ofWords (ws : Vector UInt32 128) : SuperBlock where
  magic := wordAt ws 0
  total := wordAt ws 1
  bitmapSectors := wordAt ws 2
  root := wordAt ws 3
  reserved := Vector.ofFn fun i => ws[4 + i.val]

@[simp] theorem ofWords_toWords (b : SuperBlock) : ofWords b.toWords = b := by
  have hr : (ofWords b.toWords).reserved = b.reserved := by
    apply Vector.ext
    intro i h
    have hi : ¬ 4 + i < 4 := by omega
    simp only [ofWords, toWords, Vector.getElem_ofFn]
    rw [dif_neg hi]
    simp only [Nat.add_sub_cancel_left]
  cases b
  simp_all [ofWords, toWords, wordAt]

@[simp] theorem toWords_ofWords (ws : Vector UInt32 128) : (ofWords ws).toWords = ws := by
  apply Vector.ext
  intro i h
  simp only [toWords, ofWords, Vector.getElem_ofFn]
  split
  · have hc : i = 0 ∨ i = 1 ∨ i = 2 ∨ i = 3 := by omega
    rcases hc with rfl | rfl | rfl | rfl <;> rfl
  · congr 1
    omega

instance : SectorLayout SuperBlock where
  encode b := Sector.ofWords b.toWords
  decode s := ofWords s.words

theorem decode_encode (b : SuperBlock) : (decode (encode b) : SuperBlock) = b := by
  simp [encode, decode]

theorem encode_decode (s : Sector) : encode (decode s : SuperBlock) = s := by
  simp [encode, decode]

end SuperBlock

end InodeVolume

import InodeVolume.Inode.Kind
import InodeVolume.Sector.Layout

/-!
The record of an inode and the index blocks behind it, each of which fills a sector.
-/
namespace InodeVolume

structure InodeRecord where
  kindWord : UInt32
  /-- The length of the file in bytes, which alone says where the file ends. -/
  length : UInt32
  magic : UInt32
  direct : Vector (Option SectorId) 100
  indirect : Vector (Option SectorId) 24
  doubleIndirect : Option SectorId
  deriving DecidableEq

namespace InodeRecord

def magicWord : UInt32 := 0x494e4f44

/-- A record without blocks. -/
def fresh (kind : InodeKind) : InodeRecord where
  kindWord := kind.toWord
  length := 0
  magic := magicWord
  direct := Vector.replicate 100 none
  indirect := Vector.replicate 24 none
  doubleIndirect := none

def isValid (r : InodeRecord) : Bool := r.magic == magicWord

def kind (r : InodeRecord) : InodeKind := .ofWord r.kindWord

def size (r : InodeRecord) : Nat := r.length.toNat

/-- The record after its blocks are given back. -/
def emptied (r : InodeRecord) : InodeRecord where
  kindWord := r.kindWord
  length := 0
  magic := r.magic
  direct := Vector.replicate 100 none
  indirect := Vector.replicate 24 none
  doubleIndirect := none

def toWords (r : InodeRecord) : Vector UInt32 128 :=
  Vector.ofFn fun i =>
    if h : i.val < 3 then #v[r.kindWord, r.length, r.magic][i.val]
    else if h : i.val < 103 then SectorId.toWord r.direct[i.val - 3]
    else if h : i.val < 127 then SectorId.toWord r.indirect[i.val - 103]
    else SectorId.toWord r.doubleIndirect

def ofWords (ws : Vector UInt32 128) : InodeRecord where
  kindWord := wordAt ws 0
  length := wordAt ws 1
  magic := wordAt ws 2
  direct := Vector.ofFn fun i => SectorId.ofWord? ws[3 + i.val]
  indirect := Vector.ofFn fun i => SectorId.ofWord? ws[103 + i.val]
  doubleIndirect := SectorId.ofWord? (wordAt ws 127)

@[simp] theorem ofWords_toWords (r : InodeRecord) : ofWords r.toWords = r := by
  have hd : (ofWords r.toWords).direct = r.direct := by
    apply Vector.ext
    intro i h
    have hfields : ¬ 3 + i < 3 := by omega
    have hdirect : 3 + i < 103 := by omega
    simp only [ofWords, toWords, Vector.getElem_ofFn]
    rw [dif_neg hfields, dif_pos hdirect]
    simp only [Nat.add_sub_cancel_left, SectorId.ofWord?_toWord]
  have hi : (ofWords r.toWords).indirect = r.indirect := by
    apply Vector.ext
    intro i h
    have hfields : ¬ 103 + i < 3 := by omega
    have hdirect : ¬ 103 + i < 103 := by omega
    have hindirect : 103 + i < 127 := by omega
    simp only [ofWords, toWords, Vector.getElem_ofFn]
    rw [dif_neg hfields, dif_neg hdirect, dif_pos hindirect]
    simp only [Nat.add_sub_cancel_left, SectorId.ofWord?_toWord]
  cases r
  simp_all [ofWords, toWords, wordAt]

@[simp] theorem toWords_ofWords (ws : Vector UInt32 128) : (ofWords ws).toWords = ws := by
  apply Vector.ext
  intro i h
  simp only [toWords, ofWords, Vector.getElem_ofFn, SectorId.toWord_ofWord?]
  split
  · have hc : i = 0 ∨ i = 1 ∨ i = 2 := by omega
    rcases hc with rfl | rfl | rfl <;> rfl
  · split
    · congr 1
      omega
    · split
      · congr 1
        omega
      · have hi : i = 127 := by omega
        subst hi
        rfl

instance : SectorLayout InodeRecord where
  encode r := Sector.ofWords r.toWords
  decode s := ofWords s.words

theorem decode_encode (r : InodeRecord) : (decode (encode r) : InodeRecord) = r := by
  simp [encode, decode]

theorem encode_decode (s : Sector) : encode (decode s : InodeRecord) = s := by
  simp [encode, decode]

end InodeRecord

/-- A sector of pointers. -/
structure IndexBlock where
  pointers : Vector (Option SectorId) 128
  deriving DecidableEq

instance : SectorLayout IndexBlock where
  encode b := Sector.ofWords (b.pointers.map SectorId.toWord)
  decode s := ⟨s.words.map SectorId.ofWord?⟩

namespace IndexBlock

theorem decode_encode (b : IndexBlock) : (decode (encode b) : IndexBlock) = b := by
  have h : SectorId.ofWord? ∘ SectorId.toWord = id := funext SectorId.ofWord?_toWord
  simp [encode, decode, h]

theorem encode_decode (s : Sector) : encode (decode s : IndexBlock) = s := by
  have h : SectorId.toWord ∘ SectorId.ofWord? = id := funext SectorId.toWord_ofWord?
  simp [encode, decode, h]

def empty : IndexBlock := ⟨Vector.replicate 128 none⟩

def set (b : IndexBlock) (i : Fin 128) (id : SectorId) : IndexBlock :=
  ⟨setSlot b.pointers i (some id)⟩

/-- The pointers that are present, in order. -/
def present (b : IndexBlock) : List SectorId := b.pointers.toList.filterMap id

end IndexBlock

end InodeVolume

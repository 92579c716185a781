import InodeVolume.Proofs.Allocation.NumberSet
import InodeVolume.Volume

/-!
Where the fields of the structures on the device lie. Every sector is the image of exactly one value
of each structure, the fields of a structure share out the bytes of the sector among themselves,
and the bits of the free map are the bits of its bytes. So whoever reads a structure, changes one
field or one bit of it and writes it back leaves everything else as it was.
-/
namespace InodeVolume

open Program LawfulBlockDevice

section Rewriting

variable {α δ : Type} [SectorLayout α] [BlockDevice δ] [LawfulBlockDevice δ]

/-- A structure is read, changed and written back. No other sector changes, and of its own sector is
kept what `keeps` says. -/
def Rewrites (w : World δ) (id : SectorId) (change : α → α) (keeps : Sector → Sector → Prop) :
    Prop :=
  ∃ w', (Disk.update id change).run w = (.ok (), w') ∧
    decode (image w'.device id.index) = change (decode (image w.device id.index)) ∧
    (∀ n, n ≠ id.index → image w'.device n = image w.device n) ∧
    keeps (image w.device id.index) (image w'.device id.index)

theorem rewrites {w : World δ} {id : SectorId} {change : α → α} {keeps : Sector → Sector → Prop}
    (hid : id.index < size w.device) (hde : ∀ a : α, decode (encode a) = a)
    (hkeeps : keeps (image w.device id.index)
      (encode (change (decode (image w.device id.index))))) : Rewrites w id change keeps := by
  have hupdate : (Disk.update id change).Ensures (· = id.index) (fun _ _ => True)
      (fun _ d' => d' = Function.update (image w.device) id.index
        (encode (change (decode (image w.device id.index))))) (image w.device) := by
    simp [Disk.update]
  obtain ⟨_, w', -, hrun, himage, -⟩ := hupdate.run fun n hn => hn ▸ hid
  refine ⟨w', hrun, ?_, fun n hn => ?_, ?_⟩
  · rw [himage, Function.update_self, hde]
  · rw [himage, Function.update_of_ne hn]
  · rwa [himage, Function.update_self]

end Rewriting

/-- A structure as fields of one word each, which begin at given offsets into the sector. -/
structure Schema (α : Type) where
  Field : Type
  offset : Field → Nat
  value : α → Field → UInt32

namespace Schema

variable {α : Type} [SectorLayout α] {S : Schema α}

/-- Byte `k` belongs to a field. -/
def Covers (S : Schema α) (f : S.Field) (k : Nat) : Prop := S.offset f ≤ k ∧ k < S.offset f + 4

/-- A change that leaves all fields but one as they are. -/
def ChangesOnly (S : Schema α) (f : S.Field) (a a' : α) : Prop :=
  ∀ g, g ≠ f → S.value a' g = S.value a g

/-- Two sectors that differ in the bytes of one field at most. -/
def KeepsOthers (S : Schema α) (f : S.Field) (s s' : Sector) : Prop :=
  ∀ (k : Nat) (hk : k < 512), ¬ S.Covers f k → s'[k] = s[k]

/-- The fields are little-endian words that share out the bytes of the sector. -/
structure Tiles (S : Schema α) : Prop where
  decode_encode (a : α) : decode (encode a) = a
  encode_decode (s : Sector) : encode (decode s : α) = s
  offset_le (f : S.Field) : S.offset f + 4 ≤ 512
  covered (k : Nat) : k < 512 → ∃! f, S.Covers f k
  littleEndian (a : α) (f : S.Field) (k : Nat) (hk : k < 4) (h : S.offset f + k < 512) :
    ((encode a)[S.offset f + k]).toNat = (S.value a f).toNat >>> (8 * k) % 256

structure Exact (S : Schema α) : Prop extends S.Tiles where
  rewrites {δ : Type} [BlockDevice δ] [LawfulBlockDevice δ] (w : World δ) (id : SectorId)
    (change : α → α) (f : S.Field) : id.index < size w.device →
    S.ChangesOnly f (decode (image w.device id.index)) (change (decode (image w.device id.index))) →
    Rewrites w id change (S.KeepsOthers f)

/-- A field that is left alone keeps its bytes. -/
theorem Tiles.keepsOthers (h : S.Tiles) {a a' : α} {f : S.Field} (ha : S.ChangesOnly f a a') :
    S.KeepsOthers f (encode a) (encode a') := by
  intro k hk hf
  obtain ⟨g, ⟨hle, hlt⟩, -⟩ := h.covered k hk
  have hne : g ≠ f := by
    rintro rfl
    exact hf ⟨hle, hlt⟩
  obtain ⟨i, rfl⟩ := Nat.exists_eq_add_of_le hle
  have hi : i < 4 := by omega
  apply UInt8.toNat_inj.1
  rw [h.littleEndian a' g i hi hk, h.littleEndian a g i hi hk, ha g hne]

theorem Tiles.exact (h : S.Tiles) : S.Exact where
  toTiles := h
  rewrites w id change f hid hchange := by
    refine InodeVolume.rewrites hid h.decode_encode ?_
    have hkeeps := h.keepsOthers hchange
    rwa [h.encode_decode] at hkeeps

/-- The layout of a structure whose words are given one by one. -/
theorem Tiles.of_words (toWords : α → Vector UInt32 128)
    (hde : ∀ a : α, decode (encode a) = a) (hed : ∀ s : Sector, encode (decode s : α) = s)
    (hencode : ∀ a, encode a = Sector.ofWords (toWords a))
    (hoffset : ∀ f, S.offset f % 4 = 0 ∧ S.offset f < 512)
    (hexists : ∀ i, i < 128 → ∃ f, S.offset f = 4 * i)
    (hinjective : ∀ f g, S.offset f = S.offset g → f = g)
    (hvalue : ∀ a f, S.value a f = wordAt (toWords a) (S.offset f / 4)) : S.Tiles where
  decode_encode := hde
  encode_decode := hed
  offset_le f := by
    have := hoffset f
    omega
  covered k hk := by
    have hcovers (f : S.Field) : S.Covers f k ↔ S.offset f = 4 * (k / 4) := by
      have := hoffset f
      simp only [Covers]
      omega
    obtain ⟨f, hf⟩ := hexists (k / 4) (by omega)
    exact ⟨f, (hcovers f).2 hf, fun g hg => hinjective g f (((hcovers g).1 hg).trans hf.symm)⟩
  littleEndian a f k hk h := by
    have hf := hoffset f
    have hdiv : (S.offset f + k) / 4 = S.offset f / 4 := by omega
    have hmod : (S.offset f + k) % 4 = k := by omega
    simp only [hencode, hvalue, Sector.ofWords, Vector.getElem_ofFn, hdiv, hmod]
    rw [toNat_wordByte _ hk, wordAt_eq_getElem _ (by omega)]

end Schema

section Schemas

inductive SuperField where
  | magic
  | total
  | bitmapSectors
  | root
  | reserved (i : Fin 124)
  deriving DecidableEq

def SuperField.offset : SuperField → Nat
  | magic => 0
  | total => 4
  | bitmapSectors => 8
  | root => 12
  | reserved i => 16 + 4 * i

def SuperBlock.field (b : SuperBlock) : SuperField → UInt32
  | .magic => b.magic
  | .total => b.total
  | .bitmapSectors => b.bitmapSectors
  | .root => b.root
  | .reserved i => slot b.reserved i

def SuperBlock.schema : Schema SuperBlock := ⟨SuperField, SuperField.offset, SuperBlock.field⟩

inductive RecordField where
  | kind
  | length
  | magic
  | direct (i : Fin 100)
  | indirect (i : Fin 24)
  | doubleIndirect
  deriving DecidableEq

def RecordField.offset : RecordField → Nat
  | kind => 0
  | length => 4
  | magic => 8
  | direct i => 12 + 4 * i
  | indirect i => 412 + 4 * i
  | doubleIndirect => 508

def InodeRecord.field (r : InodeRecord) : RecordField → UInt32
  | .kind => r.kindWord
  | .length => r.length
  | .magic => r.magic
  | .direct i => SectorId.toWord (slot r.direct i)
  | .indirect i => SectorId.toWord (slot r.indirect i)
  | .doubleIndirect => SectorId.toWord r.doubleIndirect

def InodeRecord.schema : Schema InodeRecord := ⟨RecordField, RecordField.offset, InodeRecord.field⟩

/-- The fields of an index block are its entries. -/
def IndexBlock.schema : Schema IndexBlock :=
  ⟨Fin 128, fun i => 4 * i, fun b i => SectorId.toWord (slot b.pointers i)⟩

namespace SuperField

theorem offset_aligned (f : SuperField) : f.offset % 4 = 0 ∧ f.offset < 512 := by
  cases f with
  | reserved i =>
    simp only [offset]
    omega
  | _ => decide

theorem offset_injective {f g : SuperField} (h : f.offset = g.offset) : f = g := by
  cases f <;> cases g <;> simp only [offset, reserved.injEq, Fin.ext_iff] at h ⊢ <;> omega

/-- Every word of the sector is a field. -/
theorem exists_offset {i : Nat} (hi : i < 128) : ∃ f : SuperField, f.offset = 4 * i := by
  by_cases h : i < 4
  · have hc : i = 0 ∨ i = 1 ∨ i = 2 ∨ i = 3 := by omega
    rcases hc with rfl | rfl | rfl | rfl
    exacts [⟨magic, rfl⟩, ⟨total, rfl⟩, ⟨bitmapSectors, rfl⟩, ⟨root, rfl⟩]
  · refine ⟨reserved ⟨i - 4, by omega⟩, ?_⟩
    simp only [offset]
    omega

end SuperField

theorem SuperBlock.wordAt_toWords (b : SuperBlock) (f : SuperField) :
    wordAt b.toWords (f.offset / 4) = b.field f := by
  cases f with
  | reserved i =>
    have hdiv : (16 + 4 * i.val) / 4 = 4 + i.val := by omega
    have h₁ : ¬ 4 + i.val < 4 := by omega
    rw [SuperField.offset, hdiv, wordAt_eq_getElem _ (by omega)]
    simp [toWords, field, slot, h₁]
  | _ => simp [SuperField.offset, wordAt, toWords, field]

theorem SuperBlock.schema_tiles : schema.Tiles :=
  .of_words toWords decode_encode encode_decode (fun _ => rfl) SuperField.offset_aligned
    (fun _ => SuperField.exists_offset) (fun _ _ => SuperField.offset_injective)
    fun b f => (b.wordAt_toWords f).symm

namespace RecordField

theorem offset_aligned (f : RecordField) : f.offset % 4 = 0 ∧ f.offset < 512 := by
  cases f with
  | direct i =>
    simp only [offset]
    omega
  | indirect i =>
    simp only [offset]
    omega
  | _ => decide

theorem offset_injective {f g : RecordField} (h : f.offset = g.offset) : f = g := by
  cases f <;> cases g <;>
    simp only [offset, direct.injEq, indirect.injEq, Fin.ext_iff, reduceCtorEq] at h ⊢ <;> omega

theorem exists_offset {i : Nat} (hi : i < 128) : ∃ f : RecordField, f.offset = 4 * i := by
  have hc : i = 0 ∨ i = 1 ∨ i = 2 ∨ (3 ≤ i ∧ i < 103) ∨ (103 ≤ i ∧ i < 127) ∨ i = 127 := by omega
  rcases hc with rfl | rfl | rfl | h | h | rfl
  · exact ⟨kind, rfl⟩
  · exact ⟨length, rfl⟩
  · exact ⟨magic, rfl⟩
  · refine ⟨direct ⟨i - 3, by omega⟩, ?_⟩
    simp only [offset]
    omega
  · refine ⟨indirect ⟨i - 103, by omega⟩, ?_⟩
    simp only [offset]
    omega
  · exact ⟨doubleIndirect, rfl⟩

end RecordField

theorem InodeRecord.wordAt_toWords (r : InodeRecord) (f : RecordField) :
    wordAt r.toWords (f.offset / 4) = r.field f := by
  cases f with
  | direct i =>
    have hdiv : (12 + 4 * i.val) / 4 = 3 + i.val := by omega
    have h₁ : ¬ 3 + i.val < 3 := by omega
    have h₂ : 3 + i.val < 103 := by omega
    rw [RecordField.offset, hdiv, wordAt_eq_getElem _ (by omega)]
    simp [toWords, field, slot, h₁, h₂]
  | indirect i =>
    have hdiv : (412 + 4 * i.val) / 4 = 103 + i.val := by omega
    have h₁ : ¬ 103 + i.val < 3 := by omega
    have h₂ : ¬ 103 + i.val < 103 := by omega
    have h₃ : 103 + i.val < 127 := by omega
    rw [RecordField.offset, hdiv, wordAt_eq_getElem _ (by omega)]
    simp [toWords, field, slot, h₁, h₂, h₃]
  | _ => simp [RecordField.offset, wordAt, toWords, field]

theorem InodeRecord.schema_tiles : schema.Tiles :=
  .of_words toWords decode_encode encode_decode (fun _ => rfl) RecordField.offset_aligned
    (fun _ => RecordField.exists_offset) (fun _ _ => RecordField.offset_injective)
    fun r f => (r.wordAt_toWords f).symm

theorem IndexBlock.schema_tiles : schema.Tiles := by
  refine .of_words (fun b => b.pointers.map SectorId.toWord) decode_encode encode_decode
    (fun _ => rfl) (fun i => ?_) (fun i hi => ⟨⟨i, hi⟩, rfl⟩) (fun i j h => Fin.ext ?_)
    fun b i => ?_
  · have := i.isLt
    simp only [schema]
    omega
  · exact Nat.eq_of_mul_eq_mul_left (by decide : 0 < 4) h
  · simp only [schema]
    rw [Nat.mul_div_cancel_left _ (by decide), wordAt_eq_getElem _ i.isLt, Vector.getElem_map]
    rfl

structure IndexBlock.Exact : Prop extends schema.Exact where
  set (b : IndexBlock) (i : Fin 128) (id : SectorId) : schema.ChangesOnly i b (b.set i id)
  set_self (b : IndexBlock) (i : Fin 128) (id : SectorId) : slot (b.set i id).pointers i = some id

theorem IndexBlock.exact : Exact where
  toExact := schema_tiles.exact
  set b _ id _ hne := congrArg SectorId.toWord (slot_setSlot_ne b.pointers (some id) hne.symm)
  set_self b i id := slot_setSlot_self b.pointers i (some id)

end Schemas

namespace BitmapBlock

theorem testBit_eq_testBit_toNat (group : UInt64) {k : Nat} (h : k < 64) :
    testBit group k = group.toNat.testBit k := by
  rw [testBit_eq_getLsbD group h, BitVec.getLsbD, UInt64.toNat_toBitVec]

/-- Bit `bit` of the map is bit `bit % 8` of byte `bit / 8`. -/
theorem testBit_encode (b : BitmapBlock) {bit : Nat} (h : bit < 4096) :
    ((encode b)[bit / 8]).toNat.testBit (bit % 8) = b.isUsed bit h := by
  have hbyte : (encode b)[bit / 8] = wordByte (if bit / 32 % 2 = 0 then groupLow b.groups[bit / 64]
      else groupHigh b.groups[bit / 64]) (bit / 8 % 4) := by
    have hword : bit / 8 / 4 = bit / 32 := by omega
    have hgroup : bit / 32 / 2 = bit / 64 := by omega
    simp [encode, Sector.ofGroups, Sector.ofWords, hword, hgroup]
  have hbit : bit % 8 < 8 := Nat.mod_lt _ (by decide)
  rw [hbyte, toNat_wordByte _ (Nat.mod_lt _ (by decide)), isUsed,
    testBit_eq_testBit_toNat _ (Nat.mod_lt _ (by decide)), show 256 = 2 ^ 8 from rfl,
    Nat.testBit_mod_two_pow, Nat.testBit_shiftRight, decide_eq_true hbit, Bool.true_and]
  split
  · have hplace : 8 * (bit / 8 % 4) + bit % 8 = bit % 64 := by omega
    have hlt : bit % 64 < 32 := by omega
    rw [hplace, groupLow, UInt64.toNat_toUInt32, Nat.testBit_mod_two_pow, decide_eq_true hlt,
      Bool.true_and]
  · have hplace : 32 + (8 * (bit / 8 % 4) + bit % 8) = bit % 64 := by omega
    have hlt : 8 * (bit / 8 % 4) + bit % 8 < 32 := by omega
    have hshift : (b.groups[bit / 64] >>> 32).toNat = b.groups[bit / 64].toNat >>> 32 :=
      UInt64.toNat_shiftRight _ _
    rw [groupHigh, UInt64.toNat_toUInt32, Nat.testBit_mod_two_pow, hshift, Nat.testBit_shiftRight,
      hplace, decide_eq_true hlt, Bool.true_and]

/-- A change that leaves all bits but one as they are. -/
def ChangesOnly (bit : Nat) (b b' : BitmapBlock) : Prop :=
  ∀ (k : Nat) (hk : k < 4096), k ≠ bit → b'.isUsed k hk = b.isUsed k hk

/-- Two sectors that differ in one bit at most. -/
def KeepsOthers (bit : Nat) (s s' : Sector) : Prop :=
  ∀ (k : Nat) (hk : k < 512) (i : Nat), i < 8 → 8 * k + i ≠ bit →
    (s'[k]).toNat.testBit i = (s[k]).toNat.testBit i

structure Exact : Prop where
  decode_encode (b : BitmapBlock) : decode (encode b) = b
  encode_decode (s : Sector) : encode (decode s : BitmapBlock) = s
  /-- The bit of a sector is where its number says. -/
  marks (blocks total : Nat) (d : Image) (n : Nat) : (Volume.freeMapOf blocks total).marks d n =
    ((d (1 + n / 4096))[n % 4096 / 8]).toNat.testBit (n % 8)
  rewrites {δ : Type} [BlockDevice δ] [LawfulBlockDevice δ] (w : World δ) (id : SectorId)
    (change : BitmapBlock → BitmapBlock) (bit : Nat) : id.index < size w.device →
    ChangesOnly bit (decode (image w.device id.index))
      (change (decode (image w.device id.index))) →
    Rewrites w id change (KeepsOthers bit)
  mark (b : BitmapBlock) {bit : Nat} (h : bit < 4096) : b.ChangesOnly bit (b.mark bit h)
  mark_self (b : BitmapBlock) {bit : Nat} (h : bit < 4096) : (b.mark bit h).isUsed bit h = true
  unmark (b : BitmapBlock) {bit : Nat} (h : bit < 4096) : b.ChangesOnly bit (b.unmark bit h)
  unmark_self (b : BitmapBlock) {bit : Nat} (h : bit < 4096) : (b.unmark bit h).isUsed bit h = false

theorem changesOnly_mark (b : BitmapBlock) {bit : Nat} (h : bit < 4096) :
    b.ChangesOnly bit (b.mark bit h) := fun k hk hne => by
  rw [isUsed_mark b h hk, decide_eq_false hne.symm, Bool.or_false]

theorem changesOnly_unmark (b : BitmapBlock) {bit : Nat} (h : bit < 4096) :
    b.ChangesOnly bit (b.unmark bit h) := fun k hk hne => by
  rw [isUsed_unmark b h hk, decide_eq_true hne.symm, Bool.and_true]

theorem keepsOthers {b b' : BitmapBlock} {bit : Nat} (h : b.ChangesOnly bit b') :
    KeepsOthers bit (encode b) (encode b') := by
  intro k hk i hi hne
  have hdiv : (8 * k + i) / 8 = k := by omega
  have hmod : (8 * k + i) % 8 = i := by omega
  have hlt : 8 * k + i < 4096 := by omega
  have hbit := h _ hlt hne
  rw [← testBit_encode _ hlt, ← testBit_encode _ hlt] at hbit
  simpa only [hdiv, hmod] using hbit

theorem marks_eq_testBit (blocks total : Nat) (d : Image) (n : Nat) :
    (Volume.freeMapOf blocks total).marks d n =
      ((d (1 + n / 4096))[n % 4096 / 8]).toNat.testBit (n % 8) := by
  have hmod : n % 4096 % 8 = n % 8 := by omega
  have hbit := testBit_encode (decode (d (1 + n / 4096))) (FreeMap.bit_lt n)
  rw [encode_decode] at hbit
  rw [FreeMap.marks, ← hmod]
  exact hbit.symm

theorem exact : Exact where
  decode_encode := decode_encode
  encode_decode := encode_decode
  marks := marks_eq_testBit
  rewrites w id change bit hid hchange := by
    refine InodeVolume.rewrites hid decode_encode ?_
    have hkeeps := keepsOthers hchange
    rwa [encode_decode] at hkeeps
  mark := changesOnly_mark
  mark_self b _ h := by rw [isUsed_mark b h h, decide_eq_true rfl, Bool.or_true]
  unmark := changesOnly_unmark
  unmark_self b _ h := by
    rw [isUsed_unmark b h h, decide_eq_false (fun hne => hne rfl), Bool.and_false]

end BitmapBlock

/-- Each of the four structures on the device is in bijection with the sectors, field by field and
bit by bit. -/
theorem layouts_exact : SuperBlock.schema.Exact ∧ InodeRecord.schema.Exact ∧
    IndexBlock.Exact ∧ BitmapBlock.Exact :=
  ⟨SuperBlock.schema_tiles.exact, InodeRecord.schema_tiles.exact, IndexBlock.exact,
    BitmapBlock.exact⟩

end InodeVolume

import InodeVolume.Sector.Basic

/-!
The 128 little-endian words of a sector. `Sector.words` and `Sector.ofWords` are inverse to each
other, and so are the 64-bit groups that pair the words up.
-/
namespace InodeVolume

/-- The byte of weight 256 ^ k. -/
def wordByte (w : UInt32) (k : Nat) : UInt8 :=
  (w >>> UInt32.ofNat (8 * k)).toUInt8

def wordOfBytes (a b c d : UInt8) : UInt32 :=
  a.toUInt32 + b.toUInt32 * 0x100 + c.toUInt32 * 0x10000 + d.toUInt32 * 0x1000000

theorem toNat_wordByte (w : UInt32) {k : Nat} (h : k < 4) :
    (wordByte w k).toNat = w.toNat >>> (8 * k) % 256 := by
  have hk : 8 * k % 2 ^ 32 % 32 = 8 * k := by omega
  simp only [wordByte, UInt32.toNat_toUInt8, UInt32.toNat_shiftRight, UInt32.toNat_ofNat', hk]

theorem toNat_wordOfBytes (a b c d : UInt8) : (wordOfBytes a b c d).toNat =
    a.toNat + b.toNat * 0x100 + c.toNat * 0x10000 + d.toNat * 0x1000000 := by
  have ha := UInt8.toNat_lt a
  have hb := UInt8.toNat_lt b
  have hc := UInt8.toNat_lt c
  have hd := UInt8.toNat_lt d
  simp [wordOfBytes]
  omega

theorem wordOfBytes_wordByte (w : UInt32) :
    wordOfBytes (wordByte w 0) (wordByte w 1) (wordByte w 2) (wordByte w 3) = w := by
  have hw := UInt32.toNat_lt w
  apply UInt32.toNat_inj.1
  rw [toNat_wordOfBytes, toNat_wordByte w (by decide), toNat_wordByte w (by decide),
    toNat_wordByte w (by decide), toNat_wordByte w (by decide)]
  omega

theorem wordByte_wordOfBytes (a b c d : UInt8) :
    wordByte (wordOfBytes a b c d) 0 = a ∧ wordByte (wordOfBytes a b c d) 1 = b ∧
      wordByte (wordOfBytes a b c d) 2 = c ∧ wordByte (wordOfBytes a b c d) 3 = d := by
  have ha := UInt8.toNat_lt a
  have hb := UInt8.toNat_lt b
  have hc := UInt8.toNat_lt c
  have hd := UInt8.toNat_lt d
  refine ⟨?_, ?_, ?_, ?_⟩ <;> apply UInt8.toNat_inj.1 <;>
    rw [toNat_wordByte _ (by decide), toNat_wordOfBytes] <;> omega

namespace Sector

def word (s : Sector) (i : Nat) (h : i < 128) : UInt32 :=
  wordOfBytes s[4 * i] s[4 * i + 1] s[4 * i + 2] s[4 * i + 3]

def words (s : Sector) : Vector UInt32 128 :=
  Vector.ofFn fun i => s.word i i.isLt

def ofWords (ws : Vector UInt32 128) : Sector :=
  Vector.ofFn fun i => wordByte ws[i.val / 4] (i.val % 4)

@[simp] theorem words_ofWords (ws : Vector UInt32 128) : (ofWords ws).words = ws := by
  apply Vector.ext
  intro i h
  have e1 : (4 * i + 1) / 4 = i := by omega
  have e2 : (4 * i + 2) / 4 = i := by omega
  have e3 : (4 * i + 3) / 4 = i := by omega
  simp [words, ofWords, word, e1, e2, e3, wordOfBytes_wordByte]

@[simp] theorem ofWords_words (s : Sector) : ofWords s.words = s := by
  apply Vector.ext
  intro i h
  obtain ⟨h0, h1, h2, h3⟩ := wordByte_wordOfBytes (s[4 * (i / 4)]) (s[4 * (i / 4) + 1])
    (s[4 * (i / 4) + 2]) (s[4 * (i / 4) + 3])
  simp only [words, ofWords, word, Vector.getElem_ofFn]
  have hm : i % 4 = 0 ∨ i % 4 = 1 ∨ i % 4 = 2 ∨ i % 4 = 3 := by omega
  rcases hm with hm | hm | hm | hm <;> simp only [hm, h0, h1, h2, h3] <;> congr 1 <;> omega

@[simp] theorem words_zero : Sector.zero.words = Vector.replicate 128 0 := by
  apply Vector.ext
  intro i h
  simp [words, word, wordOfBytes]

end Sector

/-- The word at a place, and zero beyond the last one. -/
def wordAt (ws : Vector UInt32 128) (i : Nat) : UInt32 :=
  if h : i < 128 then ws[i] else 0

theorem wordAt_eq_getElem (ws : Vector UInt32 128) {i : Nat} (h : i < 128) :
    wordAt ws i = ws[i] := dif_pos h

/-- Joins the low and the high word. -/
def groupOfWords (low high : UInt32) : UInt64 :=
  low.toUInt64 + high.toUInt64 * 0x100000000

def groupLow (g : UInt64) : UInt32 := g.toUInt32

def groupHigh (g : UInt64) : UInt32 := (g >>> 32).toUInt32

theorem groupOfWords_groupLow_groupHigh (g : UInt64) :
    groupOfWords (groupLow g) (groupHigh g) = g := by
  have hg := UInt64.toNat_lt g
  apply UInt64.toNat_inj.1
  simp [groupOfWords, groupLow, groupHigh, Nat.shiftRight_eq_div_pow]
  omega

theorem groupLow_groupOfWords (low high : UInt32) : groupLow (groupOfWords low high) = low := by
  apply UInt32.toNat_inj.1
  simp [groupOfWords, groupLow]

theorem groupHigh_groupOfWords (low high : UInt32) : groupHigh (groupOfWords low high) = high := by
  have hl := UInt32.toNat_lt low
  have hh := UInt32.toNat_lt high
  apply UInt32.toNat_inj.1
  simp [groupOfWords, groupHigh, Nat.shiftRight_eq_div_pow]
  omega

namespace Sector

def groups (s : Sector) : Vector UInt64 64 :=
  Vector.ofFn fun i =>
    groupOfWords (s.word (2 * i) (by omega)) (s.word (2 * i + 1) (by omega))

def ofGroups (gs : Vector UInt64 64) : Sector :=
  ofWords <| Vector.ofFn fun i =>
    if i.val % 2 = 0 then groupLow gs[i.val / 2]
    else groupHigh gs[i.val / 2]

theorem getElem_words (s : Sector) (i : Nat) (h : i < 128) :
    s.words[i] = s.word i h := by simp [words]

@[simp] theorem groups_ofGroups (gs : Vector UInt64 64) : (ofGroups gs).groups = gs := by
  apply Vector.ext
  intro i h
  have e1 : (2 * i + 1) / 2 = i := by omega
  simp [groups, ofGroups, ← getElem_words, e1, groupOfWords_groupLow_groupHigh]

@[simp] theorem ofGroups_groups (s : Sector) : ofGroups s.groups = s := by
  refine Eq.trans (congrArg ofWords ?_) (ofWords_words s)
  apply Vector.ext
  intro i h
  have hm : i % 2 = 0 ∨ i % 2 = 1 := by omega
  rcases hm with hm | hm
  · have hi : 2 * (i / 2) = i := by omega
    simp [groups, hm, hi, groupLow_groupOfWords, getElem_words]
  · have hi : 2 * (i / 2) + 1 = i := by omega
    simp [groups, hm, hi, groupHigh_groupOfWords, getElem_words]

end Sector

end InodeVolume

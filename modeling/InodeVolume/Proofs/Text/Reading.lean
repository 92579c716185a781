import InodeVolume.Text.Quoted
import Mathlib.Tactic.SplitIfs

/-!
Text in double quotes can be read back. A reader goes along the characters, and knows whether it is
behind a backslash or within the number of a character; it stops behind the closing quote.
-/
namespace InodeVolume

namespace Quoted

/-- Where a reader is. -/
inductive Reading where
  | plain
  | escaped
  | opening
  | number (n : Nat)

def digitValue (c : Char) : Nat := if c.isDigit then c.toNat - 48 else c.toNat - 87

/-- What a character behind a backslash stands for. -/
def unescape (c : Char) : Char :=
  if c = '0' then '\x00'
  else if c = 't' then '\t'
  else if c = 'r' then '\r'
  else if c = 'n' then '\n'
  else c

/-- Reads up to the closing quote, and tells what follows. -/
def readFrom : Reading → List Char → Option (List Char × List Char)
  | _, [] => none
  | .plain, c :: rest =>
    if c = '"' then some ([], rest)
    else if c = '\\' then readFrom .escaped rest
    else (readFrom .plain rest).map fun x => (c :: x.1, x.2)
  | .escaped, c :: rest =>
    if c = 'u' then readFrom .opening rest
    else (readFrom .plain rest).map fun x => (unescape c :: x.1, x.2)
  | .opening, c :: rest => if c = '\x7b' then readFrom (.number 0) rest else none
  | .number n, c :: rest =>
    if c = '\x7d' then (readFrom .plain rest).map fun x => (Char.ofNat n :: x.1, x.2)
    else readFrom (.number (16 * n + digitValue c)) rest

/-- The text in quotes with which a line begins, and the rest of the line. -/
def read? (line : String) : Option (String × String) :=
  match line.toList with
  | '"' :: rest => (readFrom .plain rest).map fun x => (String.ofList x.1, String.ofList x.2)
  | _ => none

section Escapes

variable (rest : List Char)

theorem digitValue_digitChar : ∀ d < 16, digitValue (Nat.digitChar d) = d ∧
    Nat.digitChar d ≠ '\x7d' := by decide

theorem readFrom_digitChar {d : Nat} (hd : d < 16) (n : Nat) :
    readFrom (.number n) (Nat.digitChar d :: rest) = readFrom (.number (16 * n + d)) rest := by
  obtain ⟨hvalue, hne⟩ := digitValue_digitChar d hd
  rw [readFrom, if_neg hne, hvalue]

theorem readFrom_toDigits (n : Nat) :
    readFrom (.number 0) (Nat.toDigits 16 n ++ rest) = readFrom (.number n) rest := by
  induction n using Nat.strongRecOn generalizing rest with
  | ind n ih =>
    rw [Nat.toDigits_eq_if (by decide)]
    split
    · rename_i hn
      rw [List.singleton_append, readFrom_digitChar rest hn, Nat.mul_zero, Nat.zero_add]
    · have hmod : n % 16 < 16 := Nat.mod_lt n (by decide)
      rw [List.append_assoc, ih (n / 16) (by omega), List.singleton_append,
        readFrom_digitChar rest hmod, Nat.div_add_mod]

theorem readFrom_hexEscape (c : Char) : readFrom .plain (hexEscape c ++ rest) =
    (readFrom .plain rest).map fun x => (c :: x.1, x.2) := by
  have hdigits : readFrom .plain (hexEscape c ++ rest) =
      readFrom (.number 0) (Nat.toDigits 16 c.toNat ++ '\x7d' :: rest) := by
    simp [hexEscape, readFrom]
  rw [hdigits, readFrom_toDigits, readFrom, if_pos rfl, Char.ofNat_toNat]

/-- A character is read back, whatever it is written as. -/
theorem readFrom_encodeChar (c : Char) : readFrom .plain (encodeChar c ++ rest) =
    (readFrom .plain rest).map fun x => (c :: x.1, x.2) := by
  unfold encodeChar
  split_ifs with hnull htab hreturn hline hmark hhidden
  · subst hnull
    simp [readFrom, unescape]
  · subst htab
    simp [readFrom, unescape]
  · subst hreturn
    simp [readFrom, unescape]
  · subst hline
    simp [readFrom, unescape]
  · rcases hmark with rfl | rfl <;> simp [readFrom, unescape]
  · exact readFrom_hexEscape rest c
  · obtain ⟨hquote, hslash⟩ := not_or.1 hmark
    rw [List.singleton_append, readFrom, if_neg hquote, if_neg hslash]

theorem readFrom_flatMap (cs : List Char) :
    readFrom .plain (cs.flatMap encodeChar ++ '"' :: rest) = some (cs, rest) := by
  induction cs with
  | nil => simp [readFrom]
  | cons c cs ih =>
    rw [List.flatMap_cons, List.append_assoc, readFrom_encodeChar, ih]
    rfl

end Escapes

/-- Who reads a line that begins with text in quotes has the text, and the rest of the line. -/
theorem read?_encode_append (s rest : String) : read? (encode s ++ rest) = some (s, rest) := by
  have hline : (encode s ++ rest).toList =
      '"' :: (s.toList.flatMap encodeChar ++ '"' :: rest.toList) := by
    simp [encode]
  simp only [read?, hline, readFrom_flatMap, Option.map_some, String.ofList_toList]

end Quoted

end InodeVolume

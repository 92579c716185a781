import InodeVolume.Sector.Words

/-!
The 64-bit digest of a byte sequence: each byte is mixed in by an exclusive or, followed by a
multiplication by a prime. Digests of two parts join, since the digest of the first part is the
seed of the second.
-/
namespace InodeVolume

structure Digest where
  value : UInt64
  deriving DecidableEq

namespace Digest

def seed : Digest := ⟨0xcbf29ce484222325⟩

def addByte (d : Digest) (b : UInt8) : Digest :=
  ⟨(d.value ^^^ b.toUInt64) * 0x100000001b3⟩

def addBytes (d : Digest) (bytes : Bytes) : Digest :=
  bytes.foldl addByte d

/-- Adds a word, lowest byte first. -/
def addWord (d : Digest) (w : UInt32) : Digest :=
  (((d.addByte (wordByte w 0)).addByte (wordByte w 1)).addByte (wordByte w 2)).addByte
    (wordByte w 3)

def ofBytes (bytes : Bytes) : Digest := seed.addBytes bytes

def hexDigit (n : Nat) : Char :=
  if n < 10 then Char.ofNat (48 + n) else Char.ofNat (87 + n)

def hexByte (b : UInt8) : List Char := [hexDigit (b.toNat / 16), hexDigit (b.toNat % 16)]

/-- The value in 16 hexadecimal digits, highest first. -/
def toHex (d : Digest) : String :=
  String.ofList ((List.range 8).flatMap fun i =>
    hexByte (d.value >>> UInt64.ofNat (56 - 8 * i)).toUInt8)

end Digest

end InodeVolume

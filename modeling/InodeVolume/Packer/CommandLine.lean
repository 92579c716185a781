/-!
The command line of the packer. Each option is given at most once, in its short or its long form,
with its value attached or as the next argument; there are no other arguments.
-/
namespace InodeVolume

namespace Packer

structure Options where
  source : String
  out : String
  sectors : UInt32
  deriving DecidableEq

inductive Invocation where
  | pack (o : Options)
  | help
  | misuse
  deriving DecidableEq

inductive OptionName where
  | source
  | out
  | sectors
  deriving DecidableEq

namespace OptionName

def ofShort? : Char → Option OptionName
  | 's' => some source
  | 'O' => some out
  | 'n' => some sectors
  | _ => none

def ofLong? : List Char → Option OptionName
  | ['s', 'o', 'u', 'r', 'c', 'e'] => some source
  | ['o', 'u', 't'] => some out
  | ['s', 'e', 'c', 't', 'o', 'r', 's'] => some sectors
  | _ => none

end OptionName

/-- How one argument is read. -/
inductive Argument where
  | assigned (name : OptionName) (value : List Char)
  /-- The value is the next argument. -/
  | awaiting (name : OptionName)
  | help
  /-- No option comes after it. -/
  | terminator
  | invalid

def readLong (word : List Char) : Argument :=
  let name := word.takeWhile (· != '=')
  if word = ['h', 'e', 'l', 'p'] then .help
  else match OptionName.ofLong? name, word.drop name.length with
    | some o, [] => .awaiting o
    | some o, _ :: value => .assigned o value
    | none, _ => .invalid

def readShort : List Char → Argument
  | [] => .invalid
  | letter :: rest =>
    if letter = 'h' then .help
    else match OptionName.ofShort? letter, rest with
      | some o, [] => .awaiting o
      | some o, '=' :: value => .assigned o value
      | some o, value => .assigned o value
      | none, _ => .invalid

def readArgument : List Char → Argument
  | ['-', '-'] => .terminator
  | '-' :: '-' :: word => readLong word
  | '-' :: word => readShort word
  | _ => .invalid

/-- An option stands where a value was awaited; a single dash is a value. -/
def looksLikeOption : List Char → Bool
  | '-' :: _ :: _ => true
  | _ => false

def digitsValue? (digits : List Char) : Option Nat :=
  if digits ≠ [] ∧ digits.all Char.isDigit then
    some (digits.foldl (fun n c => 10 * n + (c.toNat - 48)) 0)
  else none

/-- A word in decimal digits behind an optional sign; behind a minus there is only zero. -/
def sectorCount? (value : List Char) : Option UInt32 := do
  let n ← match value with
    | '+' :: digits => digitsValue? digits
    | '-' :: digits => (digitsValue? digits).filter (· == 0)
    | digits => digitsValue? digits
  if n < 0x100000000 then some (UInt32.ofNat n) else none

/-- The options given so far. -/
structure Draft where
  source : Option String := none
  out : Option String := none
  sectors : Option UInt32 := none

namespace Draft

/-- Sets an option that has no value yet; a path is never empty. -/
def assign (d : Draft) (name : OptionName) (value : List Char) : Option Draft :=
  match name with
  | .source =>
    if d.source.isNone ∧ value ≠ [] then some { d with source := some (String.ofList value) }
    else none
  | .out =>
    if d.out.isNone ∧ value ≠ [] then some { d with out := some (String.ofList value) }
    else none
  | .sectors =>
    match sectorCount? value with
    | some n => if d.sectors.isNone then some { d with sectors := some n } else none
    | none => none

def defaultSectors : UInt32 := 32768

def complete (d : Draft) : Invocation :=
  match d.source, d.out with
  | some source, some out => .pack ⟨source, out, d.sectors.getD defaultSectors⟩
  | _, _ => .misuse

/-- Reads the arguments in order; the first one that is wrong decides. -/
def scan (d : Draft) : List (List Char) → Invocation
  | [] => d.complete
  | argument :: rest =>
    match readArgument argument, rest with
    | .help, _ => .help
    | .invalid, _ => .misuse
    | .terminator, [] => d.complete
    | .terminator, _ :: _ => .misuse
    | .assigned name value, rest =>
      match d.assign name value with
      | some d => scan d rest
      | none => .misuse
    | .awaiting _, [] => .misuse
    | .awaiting name, value :: rest =>
      if looksLikeOption value then .misuse
      else match d.assign name value with
        | some d => scan d rest
        | none => .misuse

end Draft

def Invocation.ofArguments (arguments : List String) : Invocation :=
  ({} : Draft).scan (arguments.map String.toList)

end Packer

end InodeVolume

import InodeVolume.Device.Basic
import InodeVolume.Digest
import InodeVolume.Session.Execute

/-!
A session on a device, and the report of each step: the reply, the sectors whose bytes changed,
the scripts in use and the notices given. A fault ends the session.
-/
namespace InodeVolume

namespace Session

/-- Keeps the first of the members with the same number, in a list sorted by the numbers. -/
def firstOfEach {α : Type} : List (Nat × α) → List (Nat × α)
  | [] => []
  | x :: rest =>
    match firstOfEach rest with
    | [] => [x]
    | y :: more => if x.1 = y.1 then x :: more else x :: y :: more

/-- The maximal runs of consecutive numbers in an ascending list, by first and last member. -/
def runs : List Nat → List (Nat × Nat)
  | [] => []
  | n :: rest =>
    match runs rest with
    | [] => [(n, n)]
    | (first, last) :: more =>
      if n + 1 = first then (n, last) :: more else (n, n) :: (first, last) :: more

structure Report where
  reply : Reply
  /-- The sectors whose bytes differ from those before the first write to them, ascending. -/
  changed : List Nat
  /-- Over the number and the bytes of each changed sector. -/
  digest : Digest
  scripts : List (String × ScriptState)
  notices : List Notice

/-- The notices that are at least as severe as the threshold, a line each. -/
def Report.log (r : Report) (threshold : Severity) : List String :=
  (r.notices.filter fun n => n.severity.rank ≤ threshold.rank).map Notice.line

structure State (δ : Type) where
  device : δ
  workspace : Workspace

namespace State

variable {δ : Type}

def start (device : δ) : State δ := ⟨device, .empty⟩

variable [BlockDevice δ]

/-- For each write, the sector and the bytes that the device held for it until then. What lies
in a gap that an earlier write of the step left is there already. -/
def overwritten (d : δ) : List (Nat × Sector) → List (Nat × Bytes)
  | [] => []
  | (n, s) :: rest => (n, BlockDevice.content d n) :: overwritten (BlockDevice.put d n s) rest

def changedSectors (old : List (Nat × Bytes)) (after : δ) : List Nat :=
  let first := firstOfEach (old.mergeSort fun a b => a.1 ≤ b.1)
  (first.filter fun (n, bytes) => bytes != BlockDevice.content after n).map Prod.fst

def digestSectors (d : δ) (ns : List Nat) : Digest :=
  ns.foldl (fun digest n =>
    (digest.addWord (UInt32.ofNat n)).addBytes (BlockDevice.content d n)) Digest.seed

def report (old : List (Nat × Bytes)) (after : δ) (ws : Workspace) (notices : List Notice)
    (reply : Reply) : Report :=
  let changed := changedSectors old after
  ⟨reply, changed, digestSectors after changed, ws.scripts, notices⟩

def step (s : State δ) : Step → Except Fault (Report × State δ)
  | .command c =>
    match ((c.execute).run s.workspace).run ⟨s.device, #[]⟩ with
    | (.error f, _) => .error f
    | (.ok (reply, ws), w) =>
      .ok (report (overwritten s.device w.writes) w.device ws w.notices reply, ⟨w.device, ws⟩)
  | .readDevice index length =>
    match BlockDevice.readBlock s.device index length with
    | .error r => .error (.refused r)
    | .ok block =>
      .ok (report [] s.device s.workspace [] (.bytes block.toArray), s)
  | .writeDevice index block =>
    match BlockDevice.writeBlock s.device index block with
    | .error r => .error (.refused r)
    | .ok after =>
      let old := [(index, BlockDevice.content s.device index)]
      .ok (report old after s.workspace [] .nothing, ⟨after, s.workspace⟩)

/-- The reports of the steps up to a fault, which is then the last entry. -/
def play (s : State δ) : List Step → List (Except Fault Report)
  | [] => []
  | first :: rest =>
    match s.step first with
    | .error f => [.error f]
    | .ok (r, s) => .ok r :: play s rest

end State

end Session

end InodeVolume

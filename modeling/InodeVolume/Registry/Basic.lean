import InodeVolume.Allocation.Allocator
import InodeVolume.Inode.Transfer

/-!
What is in memory while volumes are in use: inode tables, each over an allocator of its own, and
handles. A table registers at most one handle for each sector. A handle knows its home, the table
that opened it, whose allocator it grows by; it outlives its registration.
-/
namespace InodeVolume

structure TableId where
  index : Nat
  deriving DecidableEq

structure HandleId where
  index : Nat
  deriving DecidableEq

structure InodeTable (σ : Type) where
  allocator : σ
  /-- In the order in which they were opened. -/
  registered : List HandleId

structure Handle where
  home : TableId
  inode : OpenInode
  deriving DecidableEq

structure Registry (σ : Type) where
  tables : Array (InodeTable σ)
  handles : Array Handle

abbrev RegistryM (σ : Type) := StateT (Registry σ) (Program Disk)

namespace Registry

variable {σ : Type}

def empty : Registry σ := ⟨#[], #[]⟩

def table? (r : Registry σ) (t : TableId) : Option (InodeTable σ) := r.tables[t.index]?

def handle? (r : Registry σ) (h : HandleId) : Option Handle := r.handles[h.index]?

def setTable (r : Registry σ) (t : TableId) (table : InodeTable σ) : Registry σ :=
  { r with tables := r.tables.setIfInBounds t.index table }

def setHandle (r : Registry σ) (h : HandleId) (handle : Handle) : Registry σ :=
  { r with handles := r.handles.setIfInBounds h.index handle }

/-- The handle that a table has registered for a sector. -/
def find? (r : Registry σ) (table : InodeTable σ) (sector : SectorId) : Option HandleId :=
  table.registered.find? fun h => (r.handle? h).any fun handle => handle.inode.sector == sector

end Registry

namespace RegistryM

variable {σ α : Type}

def require (p : Prop) [Decidable p] (b : Breach) : RegistryM σ Unit :=
  StateT.lift (Program.require p b)

def table (t : TableId) : RegistryM σ (InodeTable σ) := do
  let r ← get
  StateT.lift (.getOrBreach (r.table? t) .unknownReference)

def handle (h : HandleId) : RegistryM σ Handle := do
  let r ← get
  StateT.lift (.getOrBreach (r.handle? h) .unknownReference)

def inode (h : HandleId) : RegistryM σ OpenInode := do
  return (← handle h).inode

def setInode (h : HandleId) (f : OpenInode) : RegistryM σ Unit := do
  let old ← handle h
  modify fun r => r.setHandle h { old with inode := f }

/-- Adds a table over an allocator. -/
def addTable (allocator : σ) : RegistryM σ TableId := do
  let r ← get
  set { r with tables := r.tables.push ⟨allocator, []⟩ }
  return ⟨r.tables.size⟩

/-- Runs a program with the allocator of a table. -/
def served [Allocator σ] (t : TableId) (p : Program Store α) : RegistryM σ α := do
  let entry ← table t
  let (a, allocator) ← StateT.lift (p.serve entry.allocator)
  modify fun r => r.setTable t { entry with allocator := allocator }
  return a

/-- Changes an inode by a program that uses the allocator of its home. -/
def transact [Allocator σ] (h : HandleId) (p : OpenInode → Program Store (α × OpenInode)) :
    RegistryM σ α := do
  let entry ← handle h
  let (a, f) ← served entry.home (p entry.inode)
  setInode h f
  return a

end RegistryM

end InodeVolume

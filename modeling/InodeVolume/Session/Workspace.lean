import InodeVolume.Allocation.Supply
import InodeVolume.Registry.Lifecycle
import InodeVolume.Session.Command
import InodeVolume.Session.Named
import InodeVolume.Volume

/-!
What a session holds by name, and how the names of a command are resolved. A command that names
something that is not there does nothing.
-/
namespace InodeVolume

namespace Session

structure MountedVolume where
  volume : Volume
  table : TableId

structure Workspace where
  registry : Registry Supply
  volumes : Named MountedVolume
  tables : Named TableId
  handles : Named HandleId
  sectors : Named SectorId

def Workspace.empty : Workspace := ⟨.empty, .empty, .empty, .empty, .empty⟩

abbrev SessionM := StateT Workspace (Program Disk)

variable {α : Type}

/-- Works on the registry. -/
def onRegistry (p : RegistryM Supply α) : SessionM α := do
  let ws ← get
  let (a, registry) ← StateT.lift (p.run ws.registry)
  set { ws with registry := registry }
  return a

def withNamed (entry : Option α) (k : α → SessionM Reply) : SessionM Reply :=
  match entry with
  | none => return .unset
  | some a => k a

def withVolume (name : String) (k : MountedVolume → SessionM Reply) : SessionM Reply := do
  withNamed ((← get).volumes.get? name) k

def withHandle (name : String) (k : HandleId → SessionM Reply) : SessionM Reply := do
  withNamed ((← get).handles.get? name) k

def withExtraTable (name : String) (k : TableId → SessionM Reply) : SessionM Reply := do
  withNamed ((← get).tables.get? name) k

def withTable : TableRef → (TableId → SessionM Reply) → SessionM Reply
  | .extra name, k => withExtraTable name k
  | .ofVolume name, k => withVolume name fun v => k v.table

def withSector (sector : SectorRef) (k : SectorId → SessionM Reply) : SessionM Reply := do
  match sector with
  | .named name => withNamed ((← get).sectors.get? name) k
  | .number w =>
    match SectorId.ofWord? w with
    | none => return .zeroSector
    | some id => k id

def setHandle (name : String) (h : HandleId) : SessionM Unit :=
  modify fun ws => { ws with handles := ws.handles.set name h }

/-- Keeps a sector in a variable, if there are both. -/
def keepSector (keepAs : Option String) (sector : Option SectorId) : SessionM Unit :=
  match keepAs, sector with
  | some name, some id => modify fun ws => { ws with sectors := ws.sectors.set name id }
  | _, _ => return ()

def orFailed (result : Except VolumeError α) (k : α → SessionM Reply) : SessionM Reply :=
  match result with
  | .error e => return .failed e
  | .ok a => k a

def scriptAnswers (ws : List UInt32) : List (Option SectorId) := ws.map SectorId.ofWord?

def scriptState? : Supply → Option ScriptState
  | .scripted answers freed => some ⟨answers.length, freed.reverse⟩
  | _ => none

/-- The state of each script in use, by the name of its table. -/
def Workspace.scripts (ws : Workspace) : List (String × ScriptState) :=
  ws.tables.entries.filterMap fun (name, t) => do
    let table ← ws.registry.table? t
    let state ← scriptState? table.allocator
    return (name, state)

end Session

end InodeVolume

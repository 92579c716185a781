import InodeVolume.Session.Workspace

/-!
How each command of a session acts on the volumes, the tables and the device.
-/
namespace InodeVolume

namespace Session

/-- Keeps a volume under a name, with a table of its own. -/
def keepVolume (name : String) (v : Volume) : SessionM Reply := do
  let table ← onRegistry (RegistryM.addTable (.freeMap v.freeMap))
  modify fun ws => { ws with volumes := ws.volumes.set name ⟨v, table⟩ }
  return .volume v.root v.freeMap.capacity

def addExtraTable (name : String) (supply : Supply) : SessionM Reply := do
  let table ← onRegistry (RegistryM.addTable supply)
  modify fun ws => { ws with tables := ws.tables.set name table }
  return .nothing

/-- Changes the allocator of an extra table. -/
def refill (name : String) (change : Supply → Option (Reply × Supply)) : SessionM Reply :=
  withExtraTable name fun t => do
    let entry ← onRegistry (RegistryM.table t)
    match change entry.allocator with
    | none => return .badInput
    | some (reply, supply) =>
      onRegistry (modify fun r => r.setTable t { entry with allocator := supply })
      return reply

def openNamed (t : TableId) (sector : SectorId) (handle : String) : SessionM Reply := do
  orFailed (← onRegistry (RegistryM.openAt t sector)) fun h => do
    setHandle handle h
    let f ← onRegistry (RegistryM.inode h)
    return .opened f.sector f.openers f.size

/-- Replaces the words from word `first` on. -/
def replaceWords (s : Sector) (first : Nat) (ws : List UInt32) : Sector :=
  let old := s.words
  .ofWords <| Vector.ofFn fun i =>
    if i.val < first then slot old i else ws.getD (i.val - first) (slot old i)

def Command.execute : Command → SessionM Reply
  | .format name total => do orFailed (← StateT.lift (Volume.format total)) (keepVolume name)
  | .mount name => do orFailed (← StateT.lift Volume.mount) (keepVolume name)
  | .free name => withVolume name fun v => do
    return .number (← StateT.lift v.volume.freeMap.freeCount)
  | .allocate name keepAs => withVolume name fun v => do
    let found ← StateT.lift v.volume.freeMap.allocate
    keepSector keepAs found
    return .sector found
  | .allocateMany name count => withVolume name fun v => do
    orFailed (← onRegistry (RegistryM.served v.table (Store.allocateMany count))) fun ids =>
      return .sectors (ids.map some)
  | .release name sector => withVolume name fun v => withSector sector fun id => do
    StateT.lift (v.volume.freeMap.release id)
    return .nothing
  | .create name length kind keepAs => withVolume name fun v => do
    orFailed (← onRegistry (RegistryM.served v.table (Store.create length kind))) fun id => do
      keepSector keepAs (some id)
      return .sector (some id)
  | .rationedTable name volume budget => withVolume volume fun v =>
    addExtraTable name (.rationed v.volume.freeMap budget)
  | .scriptedTable name answers => addExtraTable name (.scripted (scriptAnswers answers) [])
  | .refillBudget name budget => refill name fun
    | .rationed m old => some (.number old, .rationed m budget)
    | _ => none
  | .refillScript name answers => refill name fun
    | .scripted old freed =>
      let all := old ++ scriptAnswers answers
      some (.script ⟨all.length, freed.reverse⟩, .scripted all freed)
    | _ => none
  | .createAt table sector length kind => withSector sector fun id => withTable table fun t => do
    orFailed (← onRegistry (RegistryM.served t (Store.createAt id length kind))) fun _ =>
      return .nothing
  | .openAt table sector handle => withSector sector fun id => withTable table fun t =>
    openNamed t id handle
  | .openRoot name handle => withVolume name fun v => openNamed v.table v.volume.root handle
  | .reopen handle target => withHandle handle fun h => do
    onRegistry (RegistryM.reopen h)
    setHandle target h
    return .number (← onRegistry (RegistryM.inode h)).openers
  | .duplicate handle target => withHandle handle fun h => do
    setHandle target h
    return .number (← onRegistry (RegistryM.inode h)).openers
  | .close table handle => withTable table fun t => withHandle handle fun h => do
    modify fun ws => { ws with handles := ws.handles.erase handle }
    onRegistry (RegistryM.close t h)
    return .nothing
  | .openCount table => withTable table fun t => do
    return .number (← onRegistry (RegistryM.openCount t))
  | .same handle other => withHandle handle fun h => withHandle other fun o =>
    return .flag (h == o)
  | .remove handle => withHandle handle fun h => do
    onRegistry (RegistryM.remove h)
    return .nothing
  | .denyWrite handle => withHandle handle fun h => do
    onRegistry (RegistryM.denyWrite h)
    return .nothing
  | .allowWrite handle => withHandle handle fun h => do
    onRegistry (RegistryM.allowWrite h)
    return .nothing
  | .sectorsOf handle positions => withHandle handle fun h => do
    return .sectors (← onRegistry (positions.mapM (RegistryM.sectorOf h)))
  | .extend handle target => withHandle handle fun h => do
    orFailed (← onRegistry (RegistryM.extend h target)) fun id => return .sector (some id)
  | .read handle offset length => withHandle handle fun h => do
    return .bytes (← onRegistry (RegistryM.readAt h offset length))
  | .write handle offset bytes => withHandle handle fun h => do
    return .number (← onRegistry (RegistryM.writeAt h offset bytes))
  | .status handle => withHandle handle fun h => do
    let f ← onRegistry (RegistryM.inode h)
    return .status f.status f.removed f.openers
  | .peek index first count => do
    let s ← StateT.lift (Disk.readSector index)
    return .words ((s.words.toList.drop first).take count)
  | .poke index first ws => do
    let s ← StateT.lift (Disk.readSector index)
    StateT.lift (Disk.writeSector index (replaceWords s first ws))
    return .nothing
  | .unknown => return .badInput

end Session

end InodeVolume

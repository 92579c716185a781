import InodeVolume.Packer.CommandLine
import InodeVolume.Packer.HostTree
import InodeVolume.Registry.Lifecycle
import InodeVolume.Text.Quoted
import InodeVolume.Volume

/-!
Packing the files of a directory into an image: the image is formatted, each regular file gets an
inode of its own and is written in one go. Packing stops at the first file that does not fit.
-/
namespace InodeVolume

namespace Packer

inductive PackError where
  | volume (e : VolumeError)
  | imageFull
  | host (e : HostError)
  | fault (f : Fault)
  deriving DecidableEq

def PackError.label : PackError → String
  | volume e => e.label
  | imageFull => "image is full"
  | host e => e.label
  | fault f => f.message

/-- The code that the packer exits with. -/
def PackError.exitCode : PackError → Nat
  | fault _ => 101
  | _ => 1

/-- An image being packed. -/
structure Packing where
  image : HostFile
  volume : Volume
  table : TableId
  registry : Registry FreeMap

namespace Packing

variable {α : Type}

/-- Runs a program on an image, and tells how that ended and what the image is then. -/
def onImage (image : HostFile) (p : Program Disk α) : Except PackError α × HostFile :=
  match p.run ⟨image, #[]⟩ with
  | (.ok a, w) => (.ok a, w.device)
  | (.error f, w) => (.error (.fault f), w.device)

/-- Formats a blank image of `sectors` sectors. -/
def start (sectors : UInt32) : Except PackError Packing × HostFile :=
  match onImage (HostFile.blank (512 * sectors.toNat)) (Volume.format sectors) with
  | (.error e, image) => (.error e, image)
  | (.ok (.error e), image) => (.error (.volume e), image)
  | (.ok (.ok volume), image) =>
    (.ok ⟨image, volume, ⟨0⟩, ⟨#[⟨volume.freeMap, []⟩], #[]⟩⟩, image)

/-- Writes a file to an inode of its own. -/
def store (table : TableId) (content : Bytes) :
    RegistryM FreeMap (Except PackError (SectorId × Nat)) := do
  match ← RegistryM.served table (Store.create 0 .file) with
  | .error e => return .error (.volume e)
  | .ok sector =>
    match ← RegistryM.openAt table sector with
    | .error e => return .error (.volume e)
    | .ok h =>
      let written ← RegistryM.writeAt h 0 content
      RegistryM.close table h
      if written < content.size then return .error .imageFull
      return .ok (sector, written)

/-- Adds a file, and tells its inode and its size. -/
def add (p : Packing) (content : Bytes) : Except PackError (SectorId × Nat) × Packing :=
  match onImage p.image ((store p.table content).run p.registry) with
  | (.error e, image) => (.error e, { p with image := image })
  | (.ok (result, registry), image) => (result, { p with image := image, registry := registry })

def freeCount (p : Packing) : Except PackError Nat :=
  (onImage p.image p.volume.freeMap.freeCount).1

end Packing

/-- The line that reports a packed file. -/
def packedLine (name : String) (sector : SectorId) (size : Nat) : String :=
  s!"{Quoted.encode name} -> inode {sector}, {size} bytes"

def openingLines (o : Options) : List String :=
  ["source=" ++ Quoted.encode o.source, "out=" ++ Quoted.encode o.out]

def freeLine (count : Nat) : String := s!"{count} sectors free"

/-- A file to be packed, which may be the image itself, or one that cannot be opened. -/
inductive Source where
  | content (f : HostFile)
  | image
  | refused (e : HostError)

def Source.read (s : Source) (image : HostFile) : Except HostError Bytes :=
  match s with
  | .content f => .ok f.toBytes
  | .image => .ok image.toBytes
  | .refused e => .error e

/-- What a run of the packer leaves: its lines, the image, and the error that ended it. -/
structure Outcome where
  lines : List String
  image : HostFile
  failure : Option PackError

/-- Packs the files in order. -/
def packAll (p : Packing) : List (String × Source) → Outcome
  | [] =>
    match p.freeCount with
    | .error e => ⟨[], p.image, some e⟩
    | .ok count => ⟨[freeLine count], p.image, none⟩
  | (name, source) :: rest =>
    match source.read p.image with
    | .error e => ⟨[], p.image, some (.host e)⟩
    | .ok content =>
      match p.add content with
      | (.error e, p) => ⟨[], p.image, some e⟩
      | (.ok (sector, size), p) =>
        let later := packAll p rest
        { later with lines := packedLine name sector size :: later.lines }

/-- The regular files of the directory at a path; the one at the place of the image is the image. -/
def sources (path : String) (directory image : Place) (entries : List (String × HostNode)) :
    List (String × Source) :=
  entries.filterMap fun
    | (_, .directory _) => none
    | (name, .file f) =>
      match HostNode.checkPath (HostNode.entryPath path name) with
      | .error e => some (name, .refused e)
      | .ok () => some (name, if directory ++ [name] = image then .image else .content f)

/-- A run of the packer in a tree: the lines it prints, the tree it leaves and its failure. -/
def run (root : HostNode) (o : Options) : List String × HostNode × Option PackError :=
  match root.writable o.out with
  | .error e => (openingLines o, root, some (.host e))
  | .ok place =>
    let outcome : Outcome :=
      match Packing.start o.sectors with
      | (.error e, image) => ⟨[], image, some e⟩
      | (.ok p, image) =>
        match (root.put place (.file image)).listing o.source with
        | .error e => ⟨[], image, some (.host e)⟩
        | .ok (directory, entries) => packAll p (sources o.source directory place entries)
    (openingLines o ++ outcome.lines, root.put place (.file outcome.image), outcome.failure)

end Packer

end InodeVolume

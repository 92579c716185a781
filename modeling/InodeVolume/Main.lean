import InodeVolume.Packer.Pack

/-!
The packer as a program: it takes the files of a directory of the host and leaves the image in a
file of the host.
-/
namespace InodeVolume

namespace Packer

def usage : String :=
  "Usage: packer --source <DIRECTORY> --out <FILE> [--sectors <COUNT>]"

/-- Reads a file of the source directory, unless it is the image. -/
def readSource (out : String) (entry : IO.FS.DirEntry) : IO Source := do
  if (← IO.FS.realPath entry.path) == (← IO.FS.realPath out) then return .image
  else return .content (.ofBytes (← IO.FS.readBinFile entry.path).data)

/-- Packs the regular files of a directory and reports each at once. -/
def packEntries (out : String) (p : Packing) :
    List IO.FS.DirEntry → IO (Packing × Option PackError)
  | [] => do
    match p.freeCount with
    | .error e => return (p, some e)
    | .ok count =>
      IO.println (freeLine count)
      return (p, none)
  | entry :: rest => do
    let data ← entry.path.symlinkMetadata
    if data.type != .file then packEntries out p rest
    else
      match (← readSource out entry).read p.image with
      | .error e => return (p, some (.host e))
      | .ok content =>
        match p.add content with
        | (.error e, p) => return (p, some e)
        | (.ok (sector, size), p) =>
          IO.println (packedLine entry.fileName sector size)
          packEntries out p rest

/-- Writes the image and turns a failure into an exit code. -/
def finish (out : String) (image : HostFile) (failure : Option PackError) : IO UInt32 := do
  IO.FS.writeBinFile out ⟨image.toBytes⟩
  match failure with
  | none => return 0
  | some e =>
    IO.eprintln s!"Error: {e.label}"
    return UInt32.ofNat e.exitCode

def packOnHost (o : Options) : IO UInt32 := do
  (openingLines o).forM IO.println
  IO.FS.writeBinFile o.out ⟨#[]⟩
  match Packing.start o.sectors with
  | (.error e, image) => finish o.out image (some e)
  | (.ok p, image) =>
    try
      let directory := (← IO.currentDir) / o.source
      let (p, failure) ← packEntries o.out p (← directory.readDir).toList
      finish o.out p.image failure
    catch e =>
      IO.FS.writeBinFile o.out ⟨image.toBytes⟩
      throw e

def runArguments (arguments : List String) : IO UInt32 :=
  match Invocation.ofArguments arguments with
  | .help => do
    IO.println usage
    return 0
  | .misuse => do
    IO.eprintln usage
    return 2
  | .pack o => do
    try packOnHost o
    catch e =>
      IO.eprintln s!"Error: {e}"
      return 1

end Packer

end InodeVolume

def main (arguments : List String) : IO UInt32 :=
  InodeVolume.Packer.runArguments arguments

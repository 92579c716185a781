import InodeVolume.Allocation.FreeMap

/-!
The allocators that an inode table may be given: the free map of a volume, the same map under a
ration, or a script that fixes every answer ahead.
-/
namespace InodeVolume

inductive Supply where
  | freeMap (m : FreeMap)
  /-- Hands out at most `budget` sectors of the map; a refusal of the map uses the budget too. -/
  | rationed (m : FreeMap) (budget : Nat)
  /-- Hands out `answers` in order, where none is a refusal, and refuses after them. Released
  sectors are only recorded, the latest first. -/
  | scripted (answers : List (Option SectorId)) (freed : List SectorId)

namespace Supply

def allocate : Supply → Program Disk (Option SectorId × Supply)
  | freeMap m => do
    let found ← m.allocate
    return (found, freeMap m)
  | rationed m 0 => return (none, rationed m 0)
  | rationed m (budget + 1) => do
    let found ← m.allocate
    return (found, rationed m budget)
  | scripted [] freed => return (none, scripted [] freed)
  | scripted (answer :: rest) freed => return (answer, scripted rest freed)

def release : Supply → SectorId → Program Disk Supply
  | freeMap m, id => do
    m.release id
    return freeMap m
  | rationed m budget, id => do
    m.release id
    return rationed m budget
  | scripted answers freed, id => return scripted answers (id :: freed)

instance : Allocator Supply := ⟨allocate, release⟩

end Supply

end InodeVolume

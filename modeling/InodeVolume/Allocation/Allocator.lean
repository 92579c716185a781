import InodeVolume.Program.Store

/-!
Allocators of sectors. Serving a program that asks for sectors by an allocator leaves a program
that uses the disk alone.
-/
namespace InodeVolume

class Allocator (σ : Type) where
  allocate (s : σ) : Program Disk (Option SectorId × σ)
  release (s : σ) (id : SectorId) : Program Disk σ

namespace Program

variable {σ α β : Type} [Allocator σ]

/-- Answers the requests for sectors by the allocator, and ends with its last state. -/
def serve : Program Store α → σ → Program Disk (α × σ)
  | done a, s => done (a, s)
  | fault f, _ => fault f
  | ask (.disk r) next, s => ask (I := Disk) r fun x => serve (next x) s
  | ask .allocate next, s => (Allocator.allocate s).bind fun x => serve (next x.1) x.2
  | ask (.release id) next, s => (Allocator.release s id).bind fun s => serve (next ()) s

theorem serve_bind (p : Program Store α) (k : α → Program Store β) (s : σ) :
    (p.bind k).serve s = (p.serve s).bind fun x => (k x.1).serve x.2 := by
  induction p generalizing s with
  | done a => rfl
  | fault f => rfl
  | ask r next ih =>
    cases r with
    | disk r => simp [serve, ih]
    | allocate => simp [serve, ih, bind_bind]
    | release id => simp [serve, ih, bind_bind]

theorem serve_onStore (p : Program Disk α) (s : σ) :
    p.onStore.serve s = p.bind fun a => done (a, s) := by
  induction p with
  | done a => rfl
  | fault f => rfl
  | ask r next ih => simp [onStore, serve, ih]

end Program

end InodeVolume

import InodeVolume.Allocation.Supply
import InodeVolume.Proofs.Allocation.Restoration
import InodeVolume.Proofs.Inode.Rounds
import InodeVolume.Proofs.Volume.Alike

/-!
An operation that fails has not happened. On a volume every byte of the device is as before and so
is all that is in memory; over any other allocator nothing remains but the calls to it, which
give back each sector that they handed out.
-/
namespace InodeVolume

open Program LawfulBlockDevice

/-- The reply tells that the operation has failed. -/
def Operation.Fails : (o : Operation) → o.Reply → Prop
  | .create _ _, .error _ => True
  | .createAt _ _ _, .error _ => True
  | .extend _ _, .error _ => True
  | .allocateMany _, .error _ => True
  | _, _ => False

namespace Registry

variable {δ σ : Type} [BlockDevice δ] [Allocator σ] {reg reg' : Registry σ} {w w' : World δ}
  {o : Operation} {t : TableId}

/-- One table has called its allocator; otherwise the registry is as before. -/
def Called (reg : Registry σ) (w : World δ) (dialogue : Dialogue Store) (reg' : Registry σ)
    (w' : World δ) : Prop :=
  ∃ home e a', reg.table? home = some e ∧ dialogue.Takes e.allocator w a' w' ∧
    reg' = reg.setTable home { e with allocator := a' }

/-- A failed operation has called an allocator, and has undone what came of that. -/
theorem undone_of_fails {x : o.Reply} (hrun : ((o.perform t).run reg).run w = (.ok (x, reg'), w'))
    (hfails : o.Fails x) : ∃ dialogue, reg.Called w dialogue reg' w' ∧ dialogue.Undone := by
  cases o with
  | create length kind =>
    cases x with
    | ok s => exact hfails.elim
    | error e =>
      obtain ⟨e, a', dialogue, ht, hends, htakes, hreg⟩ := RegistryM.served_takes hrun
      exact ⟨dialogue, ⟨t, e, a', ht, htakes, hreg⟩, Store.create_undone hends⟩
  | createAt s length kind =>
    cases x with
    | ok u => exact hfails.elim
    | error e =>
      obtain ⟨e, a', dialogue, ht, hends, htakes, hreg⟩ := RegistryM.served_takes hrun
      exact ⟨dialogue, ⟨t, e, a', ht, htakes, hreg⟩, Store.createAt_undone hends⟩
  | extend h target =>
    cases x with
    | ok id => exact hfails.elim
    | error e =>
      obtain ⟨entry, e, f, a', dialogue, hh, ht, hends, htakes, hreg⟩ :=
        RegistryM.transact_takes (p := fun f => f.extend target) hrun
      obtain ⟨hundone, rfl⟩ := OpenInode.extend_undone hends
      rw [setHandle_self (handle?_setTable.trans hh)] at hreg
      exact ⟨dialogue, ⟨entry.home, e, a', ht, htakes, hreg⟩, hundone⟩
  | allocateMany count =>
    cases x with
    | ok ids => exact hfails.elim
    | error e =>
      obtain ⟨e, a', dialogue, ht, hends, htakes, hreg⟩ := RegistryM.served_takes hrun
      exact ⟨dialogue, ⟨t, e, a', ht, htakes, hreg⟩, Store.allocateMany_undone hends⟩
  | _ => exact hfails.elim

end Registry

namespace Machine

variable {δ : Type} [BlockDevice δ] [LawfulBlockDevice δ] {total : UInt32}
  {m m' : Machine δ FreeMap} {st : FileStore} {o : Operation}

/-- On a volume a failed operation leaves a machine like the one before it. -/
theorem OnVolume.alike_of_fails (h : OnVolume total m st) {x : o.Reply} (hx : m.Replies o x m')
    (hfails : o.Fails x) : Alike m m' := by
  obtain ⟨hm, hinUse⟩ := h.inUse
  obtain ⟨a, registered, hc⟩ := hinUse.consistent
  obtain ⟨rfl, htracks⟩ := hc.lends
  obtain ⟨journal, hx⟩ := hx
  obtain ⟨dialogue, ⟨home, e, a', ht, htakes, hreg⟩, hundone⟩ := Registry.undone_of_fails hx hfails
  -- There is one table, so it is the one that was called.
  have he : e = ⟨Volume.mapOf total, registered⟩ := by
    rw [Registry.table?, hc.tables] at ht
    exact Array.mem_singleton.1 (Array.mem_of_getElem? ht)
  rw [he] at htakes
  obtain ⟨rfl, hsize, himage⟩ :=
    FreeMap.image_eq_of_undone hm hundone htakes hinUse.size_le htracks
  refine ⟨?_, hsize, himage⟩
  rw [hreg]
  refine Registry.setTable_self ?_
  rw [ht, he]

/-- The sectors of an inode and those of the map have to find room. -/
theorem InUse.card_footprint_le {n : Nat} {map : FreeMap} {hm : map.Fits n} {s : SectorId}
    (h : InUse (FreeMap.lender hm) m st) (hs : s ∈ st.live) :
    map.reserved + (1 + totalSectors (dataBlocks (st.file s).bytes.size)) ≤ map.capacity := by
  obtain ⟨a, registered, hc⟩ := h.consistent
  have hcard := hc.lends.2.card_le hm
  have hsubset := Finset.card_le_card (FileStore.footprint_subset_used (d := image m.device) hs)
  rw [(hc.laid.represents hs).card_footprint] at hsubset
  omega

end Machine

/-- Creation, extension and the allocation of many sectors are atomic: if one of them fails, then on
a volume the machine is as if it had never been tried, whatever is done next; and over any
allocator that may refuse at any call, the inodes have written nothing and each sector handed out
has been given back, once. -/
theorem fails_atomic :
    (∀ {δ : Type} [BlockDevice δ] [LawfulBlockDevice δ] {total : UInt32} {m m' : Machine δ FreeMap}
      {st : FileStore} {o : Operation} {x : o.Reply}, Machine.OnVolume total m st →
      m.Replies o x m' → o.Fails x → Machine.Alike m m' ∧
        ∀ history m₁ st₁, Machine.Follows m st history m₁ st₁ →
          ∃ m₂, Machine.Follows m' st history m₂ st₁ ∧ Machine.Alike m₁ m₂) ∧
    (∀ {δ σ : Type} [BlockDevice δ] [Allocator σ] {reg reg' : Registry σ} {w w' : World δ}
      {t : TableId} {o : Operation} {x : o.Reply},
      ((o.perform t).run reg).run w = (.ok (x, reg'), w') → o.Fails x →
        ∃ dialogue, reg.Called w dialogue reg' w' ∧ dialogue.Quiet ∧
          (Call.givenBack dialogue.calls).Perm (Call.handedOut dialogue.calls)) := by
  refine ⟨fun h hx hfails => ?_, fun hrun hfails => ?_⟩
  · have ha := h.alike_of_fails hx hfails
    obtain ⟨_, hinUse⟩ := h.inUse
    exact ⟨ha, fun _ _ _ hf => ha.follows hinUse hf⟩
  · obtain ⟨dialogue, hcalled, hundone⟩ := Registry.undone_of_fails hrun hfails
    exact ⟨dialogue, hcalled, hundone.quiet, hundone.settles.perm⟩

/-- The root directory of a small volume is extended by more blocks than there are sectors, and an
inode of three blocks is created over an allocator that has but two. -/
theorem fails_atomic_without_room :
    (∃ (m m' : Machine SectorArray FreeMap) (st : FileStore) (h : HandleId) (e : VolumeError),
      Machine.OnVolume 100 m st ∧ m.Replies (.extend h 49664) (.error e) m' ∧
        Machine.Alike m m') ∧
    ∃ (reg' : Registry Supply) (w' : World SectorArray) (dialogue : Dialogue Store),
      (((Operation.createAt ⟨5, by decide⟩ 1500 .file).perform ⟨0⟩).run
        (Registry.over (.scripted [some ⟨7, by decide⟩, some ⟨8, by decide⟩] []))).run
          ⟨SectorArray.filled 10 7, #[]⟩ = (.ok (.error .noSpace, reg'), w') ∧
        dialogue.Quiet ∧ (Call.givenBack dialogue.calls).Perm (Call.handedOut dialogue.calls) := by
  refine ⟨?_, ?_⟩
  · have hsize : size (SectorArray.filled 100 7) = 100 := Array.size_replicate
    obtain ⟨m, root, h, hm⟩ := Machine.exists_onVolume_opened 100
      (d := SectorArray.filled 100 7) (Nat.le_of_eq hsize.symm) (by decide)
    have hf := (FileStore.initial root).opened_setOpened_self h (some ⟨root, 1, false, 0⟩)
    have hlegal : ((FileStore.initial root).setOpened h (some ⟨root, 1, false, 0⟩)).Legal
        (.extend h 49664) := ⟨_, hf⟩
    obtain ⟨hfits, hinUse⟩ := hm.inUse
    obtain ⟨x, m', hx, -, hinUse'⟩ := hinUse.attempt_ok hlegal rfl
    cases x with
    | error e => exact ⟨m, m', _, h, e, hm, hx, (fails_atomic.1 hm hx trivial).1⟩
    | ok id =>
      rw [FileStore.after_extend hf] at hinUse'
      have hroom := hinUse'.card_footprint_le (s := root) (Finset.mem_singleton_self root)
      rw [FileStore.setBytes, FileStore.file_setFile_self, FileStore.fileOf, File.extended,
        Bytes.size_padded] at hroom
      have hcount : (Volume.mapOf 100).reserved +
          (1 + totalSectors (dataBlocks (max 0 49665))) ≤ (Volume.mapOf 100).capacity := hroom
      exact absurd hcount (by decide)
  · have hrun : (((Operation.createAt ⟨5, by decide⟩ 1500 .file).perform ⟨0⟩).run
        (Registry.over (Supply.scripted [some ⟨7, by decide⟩, some ⟨8, by decide⟩] []))).run
          ⟨SectorArray.filled 10 7, #[]⟩ = (.ok (.error .noSpace, _), _) := rfl
    obtain ⟨dialogue, -, hquiet, hperm⟩ := fails_atomic.2 hrun trivial
    exact ⟨_, _, dialogue, hrun, hquiet, hperm⟩

end InodeVolume

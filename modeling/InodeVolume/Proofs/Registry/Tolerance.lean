import InodeVolume.Allocation.FreeMap
import InodeVolume.Proofs.Inode.Damage
import InodeVolume.Proofs.Program.Refusal
import InodeVolume.Proofs.Registry.Runs

/-!
Looking at an inode through a handle. Its magic word alone lets it be opened; from then on nothing
that its record says makes a look at it end in a fault of the volume, or change anything.
-/
namespace InodeVolume

namespace RegistryM

open Program BlockDevice LawfulBlockDevice

variable {σ δ : Type} [BlockDevice δ] [LawfulBlockDevice δ] {reg : Registry σ} {h : HandleId}
  {entry : Handle} {n : Nat}

/-- Whatever is asked through a handle for the inode on sector `s`, whose record is `r`, can only
fail by a pointer that leads outside the device, and changes neither the device nor the registry. -/
structure Tolerates (reg : Registry σ) (h : HandleId) (s : SectorId) (r : InodeRecord) (e : δ) :
    Prop where
  status {w : World δ} : w.device = e →
    ((do return (← inode h).status : RegistryM σ InodeStatus).run reg).run w =
      (.ok (⟨s.index, r.kind, r.size, totalSectors (dataBlocks r.size)⟩, reg), w)
  sectorOf {w : World δ} (position : Nat) : w.device = e →
    ((sectorOf h position).run reg).OnlyReads (r.PointsTo (answers e))
      (fun x => x = (if r.size < position then none
        else r.blockAt (answers e) (position / 512), reg)) w
  readInto {w : World δ} (offset : Nat) {n : Nat} (buffer : Vector UInt8 n) :
    n < 0x8000000000000000 → w.device = e →
    ((readInto h offset buffer).run reg).OnlyReads (r.PointsTo (answers e))
      (fun x => x.2 = reg ∧ IsGreatest {k | r.Readable (answers e) offset n k} x.1.1 ∧
        ∀ i, (hi : i < n) → x.1.2[i] =
          if i < x.1.1 then r.byteAt (answers e) (offset + i) else buffer[i]) w

theorem tolerates {e : δ} (hh : reg.handle? h = some entry) :
    Tolerates reg h entry.inode.sector entry.inode.record e where
  status _ := by
    simp only [StateT.run_bind, inode_run hh, bind_eq, done_bind]
    rfl
  sectorOf position hw := by
    subst hw
    refine Ensures.onlyReads ?_
    rw [RegistryM.sectorOf, inode_lift_run (p := fun f => f.record.sectorOf position) hh,
      ensures_bind]
    exact InodeRecord.sectorOf_ensures (fun q id hq => ⟨.index q, id, hq, rfl⟩) rfl
  readInto offset _ buffer hn hw := by
    subst hw
    refine Ensures.onlyReads ?_
    rw [RegistryM.readInto, inode_lift_run (p := fun f => f.readInto offset buffer) hh,
      ensures_bind]
    exact OpenInode.readInto_ensures (fun s id hs => ⟨s, id, hs, rfl⟩) hn
      fun k buffer' hk hbuffer => ⟨rfl, hk, hbuffer⟩

/-- An inode that is not open yet is opened by its magic word alone. Nothing else in its record or
behind its pointers keeps it from being looked at, and looking at it does no harm. -/
theorem openAt_tolerates {t : TableId} {table : InodeTable σ} {s : SectorId} {w : World δ}
    (ht : reg.table? t = some table) (hfind : reg.find? table s = none)
    (hs : s.index < size w.device) (hvalid : (recordAt (image w.device) s).isValid = true) :
    ∃ h reg' w', ((openAt t s).run reg).run w = (.ok (.ok h, reg'), w') ∧ w'.device = w.device ∧
      w'.writes = w.writes ∧ Tolerates reg' h s (recordAt (image w.device) s) w.device := by
  let k : HandleId := ⟨reg.handles.size⟩
  have hrecord : (decode (image w.device s.index) : InodeRecord) = recordAt (image w.device) s :=
    (recordAt_eq_decode _ s).symm
  have hopen : ((openAt t s).run reg).Ensures (· = s.index) (fun _ _ => False)
      (fun x _ => x = (.ok k, (reg.setTable t { table with registered := table.registered ++ [k] }
        ).pushHandle ⟨t, .ofRecord s (recordAt (image w.device) s)⟩)) (image w.device) := by
    rw [openAt_run_new ht hfind, ensures_bind, ensures_load, hrecord, hvalid]
    exact ⟨rfl, rfl⟩
  obtain ⟨_, w', hrun, rfl, hdevice, hwrites⟩ := hopen.run_silent fun n hn => hn ▸ hs
  exact ⟨_, _, w', hrun, hdevice, hwrites, tolerates (Registry.handle?_pushHandle_self _)⟩

/-- The last sector of a device of two, with a record of the greatest length there is of which every
pointer leads back to it. -/
def circularSector : SectorId := ⟨1, by decide⟩

def circular : InodeRecord :=
  { InodeRecord.fresh .file with
    length := 0xffffffff
    direct := Vector.replicate 100 (some circularSector)
    indirect := Vector.replicate 24 (some circularSector)
    doubleIndirect := some circularSector }

def circularDevice : SectorArray := ⟨#[Sector.zero, encode circular]⟩

theorem openAt_tolerates_circular :
    (recordAt (image circularDevice) circularSector).isValid = true ∧ ∃ h reg' w,
      ((openAt ⟨0⟩ circularSector).run (⟨#[⟨⟨1, 1, 2⟩, []⟩], #[]⟩ : Registry FreeMap)).run
        ⟨circularDevice, #[]⟩ = (.ok (.ok h, reg'), w) ∧
      Tolerates reg' h circularSector circular circularDevice := by
  have hsector : image circularDevice circularSector.index = encode circular := by
    have hindex : circularSector.index = 1 := rfl
    simp [hindex, image, circularDevice]
  have hrecord : recordAt (image circularDevice) circularSector = circular := by
    rw [recordAt_eq_decode, hsector, InodeRecord.decode_encode]
  have hvalid : (recordAt (image circularDevice) circularSector).isValid = true := by
    rw [hrecord]
    rfl
  have htable :
      (⟨#[⟨⟨1, 1, 2⟩, []⟩], #[]⟩ : Registry FreeMap).table? ⟨0⟩ = some ⟨⟨1, 1, 2⟩, []⟩ := rfl
  obtain ⟨h, reg', w, hrun, -, -, htolerates⟩ :=
    openAt_tolerates (w := ⟨circularDevice, #[]⟩) htable rfl (by decide) hvalid
  rw [hrecord] at htolerates
  exact ⟨hvalid, h, reg', w, hrun, htolerates⟩

end RegistryM

end InodeVolume

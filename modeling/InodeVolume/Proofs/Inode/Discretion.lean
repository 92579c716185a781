import InodeVolume.Inode.Transfer
import InodeVolume.Proofs.Inode.Settling
import InodeVolume.Proofs.Program.Discretion

/-!
All that is done with inodes is discreet: it leaves it to the allocator to give notice of the
sectors that it hands out and gets back.
-/
namespace InodeVolume

open Program Disk

namespace InodeRecord

theorem discreet_resolve (r : InodeRecord) (a : BlockAddress) : (r.resolve a).Discreet := by
  cases a with
  | direct i => exact asks_done _
  | indirect outer inner =>
    rw [resolve]
    split
    · exact asks_done _
    · exact (discreet_load _).bind fun _ => asks_done _
  | doubleIndirect outer inner =>
    rw [resolve]
    split
    · exact asks_done _
    · refine (discreet_load _).bind fun upper => ?_
      split
      · exact asks_done _
      · exact (discreet_load _).bind fun _ => asks_done _

theorem discreet_blockSector (r : InodeRecord) (index : Nat) :
    (r.blockSector index).Discreet := by
  rw [blockSector]
  split
  · exact asks_done _
  · exact r.discreet_resolve _

theorem discreet_sectorOf (r : InodeRecord) (position : Nat) :
    (r.sectorOf position).Discreet := by
  rw [sectorOf]
  split
  · exact asks_done _
  · exact r.discreet_blockSector _

theorem discreet_indexedSectors (ids : List SectorId) : (indexedSectors ids).Discreet := by
  induction ids with
  | nil => exact asks_done _
  | cons index rest ih => exact (discreet_load index).bind fun _ => ih.bind fun _ => asks_done _

theorem discreet_reachable (r : InodeRecord) : r.reachable.Discreet := by
  refine (discreet_indexedSectors _).bind fun indirect => ?_
  split
  · exact asks_done _
  · exact (discreet_load _).bind fun _ => (discreet_indexedSectors _).bind fun _ => asks_done _

theorem discreet_nextSector (obtained : List SectorId) : (nextSector obtained).Discreet := by
  cases obtained <;> trivial

theorem discreet_newIndexBlock (obtained : List SectorId) : (newIndexBlock obtained).Discreet :=
  (discreet_nextSector obtained).bind fun _ => (discreet_store _ _).bind fun _ => asks_done _

theorem discreet_setEntry (index : SectorId) (i : Fin 128) (id : SectorId) :
    (setEntry index i id).Discreet := discreet_update _ _

theorem discreet_link (r : InodeRecord) (data : SectorId) (obtained : List SectorId)
    (a : BlockAddress) : (r.link data obtained a).Discreet := by
  unfold link
  cases a with
  | direct i => exact asks_done _
  | indirect outer inner =>
    dsimp -zeta only
    extract_lets finish
    have hfinish (x : InodeRecord × List SectorId) : (finish x).Discreet :=
      (asks_getOrBreach _ _).bind fun index => (discreet_setEntry index _ _).bind fun _ =>
        asks_done _
    split
    · exact (discreet_newIndexBlock obtained).bind fun _ => hfinish _
    · exact hfinish _
  | doubleIndirect outer inner =>
    dsimp -zeta only
    extract_lets finish
    have hfinish (x : InodeRecord × List SectorId) : (finish x).Discreet := by
      refine (asks_getOrBreach _ _).bind fun double => ?_
      split
      · exact (discreet_newIndexBlock x.2).bind fun y => (discreet_setEntry double _ y.1).bind
          fun _ => (discreet_setEntry y.1 _ _).bind fun _ => asks_done _
      · exact (discreet_load double).bind fun _ => (asks_getOrBreach _ _).bind fun index =>
          (discreet_setEntry index _ _).bind fun _ => asks_done _
    split
    · exact (discreet_newIndexBlock obtained).bind fun _ => hfinish _
    · exact hfinish _

theorem discreet_growBlock (r : InodeRecord) (index : Nat) (obtained : List SectorId) :
    (r.growBlock index obtained).Discreet :=
  (discreet_nextSector obtained).bind fun x => (discreet_writeSector _ _).bind fun _ =>
    (asks_getOrBreach _ _).bind fun a => r.discreet_link x.1 x.2 a

theorem discreet_grow (r : InodeRecord) (first : Nat) (obtained : List SectorId) (count : Nat) :
    (r.grow first obtained count).Discreet := by
  induction count generalizing r first obtained with
  | zero => exact asks_done _
  | succ count ih => exact (r.discreet_growBlock first obtained).bind fun x => ih x.1 _ x.2

end InodeRecord

namespace Store

theorem discreet_allocate : allocate.DiscreetOnStore := asks_request trivial

theorem discreet_release (id : SectorId) : (release id).DiscreetOnStore := asks_request trivial

theorem discreet_releaseAll (ids : List SectorId) : (releaseAll ids).DiscreetOnStore := by
  induction ids with
  | nil => exact asks_done _
  | cons id rest ih => exact (discreet_release id).bind fun _ => ih

theorem discreet_gather (wanted : Nat) (obtained : List SectorId) (left : Nat) :
    (gather wanted obtained left).DiscreetOnStore := by
  induction left generalizing obtained with
  | zero => exact asks_done _
  | succ left ih =>
    refine discreet_allocate.bind fun answer => ?_
    cases answer with
    | some id => exact ih (id :: obtained)
    | none =>
      exact (discreet_note rfl).onStore.bind fun _ => (discreet_releaseAll _).bind fun _ =>
        asks_done _

theorem discreet_allocateMany (count : Nat) : (allocateMany count).DiscreetOnStore :=
  (asks_require _ _).bind fun _ => discreet_gather _ _ _

theorem discreet_createAt (s : SectorId) (length : Nat) (kind : InodeKind) :
    (createAt s length kind).DiscreetOnStore := by
  rw [createAt]
  dsimp only
  split
  · exact asks_done _
  · refine (discreet_allocateMany _).bind fun obtained => ?_
    cases obtained with
    | error e => exact asks_done _
    | ok ids =>
      exact ((InodeRecord.fresh kind).discreet_grow _ _ _).onStore.bind fun _ =>
        (asks_word length).bind fun _ => (discreet_store s _).onStore.bind fun _ =>
          (discreet_note rfl).onStore.bind fun _ => asks_done _

theorem discreet_create (length : Nat) (kind : InodeKind) :
    (create length kind).DiscreetOnStore := by
  refine discreet_allocate.bind fun answer => ?_
  cases answer with
  | none => exact asks_done _
  | some s =>
    refine (discreet_createAt s length kind).bind fun created => ?_
    cases created with
    | ok _ => exact asks_done _
    | error e => exact (discreet_release s).bind fun _ => asks_done _

end Store

namespace OpenInode

theorem discreet_denyWrite (f : OpenInode) : f.denyWrite.Discreet :=
  (asks_require _ _).bind fun _ => asks_done _

theorem discreet_allowWrite (f : OpenInode) : f.allowWrite.Discreet :=
  (asks_require _ _).bind fun _ => (asks_require _ _).bind fun _ => asks_done _

theorem discreet_sync (f : OpenInode) : f.sync.Discreet := discreet_store _ _

theorem discreet_resized (f : OpenInode) (length : Nat) : (f.resized length).Discreet :=
  (asks_word length).bind fun _ => asks_done _

theorem discreet_reach (f : OpenInode) (stop : Nat) : (f.reach stop).Discreet := by
  rw [reach]
  split
  · exact asks_done _
  · exact (f.discreet_resized stop).bind fun g => g.discreet_sync.bind fun _ => asks_done _

theorem discreet_growTo (f : OpenInode) (blocks : Nat) : (f.growTo blocks).DiscreetOnStore := by
  rw [growTo]
  dsimp only
  split
  · exact asks_done _
  · refine (asks_difference _ _).bind fun count => (Store.discreet_allocateMany count).bind
      fun obtained => ?_
    cases obtained with
    | error e => exact asks_done _
    | ok ids =>
      exact (f.record.discreet_grow _ _ _).onStore.bind fun _ =>
        (discreet_note rfl).onStore.bind fun _ => asks_done _

theorem discreet_syncAt (f : OpenInode) (position : Nat) : (f.syncAt position).DiscreetOnStore :=
  f.discreet_sync.onStore.bind fun _ => (f.record.discreet_blockSector _).onStore.bind
    fun _ => (asks_getOrBreach _ _).bind fun _ => asks_done _

theorem discreet_settle (f : OpenInode) (target : Nat) : (f.settle target).DiscreetOnStore := by
  rw [settle]
  split
  · exact (f.discreet_resized _).onStore.bind fun g => g.discreet_syncAt target
  · exact f.discreet_syncAt target

theorem discreet_extend (f : OpenInode) (target : Nat) : (f.extend target).DiscreetOnStore := by
  rw [extend_eq]
  split
  · exact asks_done _
  · refine (f.discreet_growTo _).bind fun grown => ?_
    cases grown with
    | error e => exact asks_done _
    | ok g => exact g.discreet_settle target

theorem discreet_readFrom (f : OpenInode) (obtained : Bytes) (position stop : Nat) :
    (f.readFrom obtained position stop).Discreet := by
  fun_induction readFrom f obtained position stop with
  | case1 obtained position hlt ih =>
    refine (f.record.discreet_sectorOf position).bind fun place => ?_
    cases place with
    | none => exact (discreet_note rfl).bind fun _ => asks_done _
    | some id => exact (discreet_readSector _).bind fun s => ih s
  | case2 obtained position hlt => exact asks_done _

theorem discreet_readAt (f : OpenInode) (offset length : Nat) :
    (f.readAt offset length).Discreet := by
  rw [readAt]
  split
  · exact asks_done _
  · exact (asks_sum _ _).bind fun _ => f.discreet_readFrom _ _ _

theorem discreet_sectorFor (f : OpenInode) (position : Nat) :
    (f.sectorFor position).DiscreetOnStore := by
  refine (f.record.discreet_sectorOf position).onStore.bind fun place => ?_
  cases place with
  | some id => exact asks_done _
  | none => exact f.discreet_extend position

theorem discreet_writeChunk (id : SectorId) (skip count : Nat) (bytes : Bytes) (first : Nat) :
    (writeChunk id skip count bytes first).Discreet := by
  rw [writeChunk]
  split
  · exact discreet_writeSector _ _
  · exact (discreet_readSector _).bind fun _ => discreet_writeSector _ _

theorem discreet_writeFrom (f : OpenInode) (offset : Nat) (bytes : Bytes) (written : Nat) :
    (f.writeFrom offset bytes written).DiscreetOnStore := by
  fun_induction writeFrom f offset bytes written with
  | case1 f written hlt ih =>
    refine (asks_sum _ _).bind fun start => (f.discreet_sectorFor start).bind ?_
    rintro ⟨place, g⟩
    cases place with
    | error e => exact (discreet_note rfl).onStore.bind fun _ => asks_done _
    | ok id =>
      exact (discreet_writeChunk id _ _ _ _).onStore.bind fun _ =>
        (g.discreet_reach _).onStore.bind fun g' => ih start g'
  | case2 f written hlt => exact asks_done _

theorem discreet_writeAt (f : OpenInode) (offset : Nat) (bytes : Bytes) :
    (f.writeAt offset bytes).DiscreetOnStore := by
  rw [writeAt]
  split
  · exact (discreet_note rfl).onStore.bind fun _ => asks_done _
  · exact f.discreet_writeFrom _ _ _

end OpenInode

end InodeVolume

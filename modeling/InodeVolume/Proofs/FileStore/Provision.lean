import InodeVolume.Proofs.Allocation.Sufficiency
import InodeVolume.Proofs.FileStore.Lifecycle
import InodeVolume.Proofs.FileStore.Transfer

/-!
The operations over a free map: they fail only if there is no room for what they would add, and
they read only the map, inodes that are known, and what they have written themselves.
-/
namespace InodeVolume

variable {m : FreeMap} {size : Nat} {hm : m.Fits size}

namespace Serving

open Program

variable {a : FreeMap} {registered : List HandleId} {d : Image} {reg : Registry FreeMap}
  {st : FileStore} {h : HandleId} {f : OpenFile} {K : Set Nat} {room : Nat}

section Calls

variable {α : Type} {G : Finset SectorId → Image → Image → Prop}

theorem tracks (hc : Serving (FreeMap.lender hm) a registered d reg st) :
    m.Tracks d (st.used d) := hc.lends.2

theorem table_eq (hc : Serving (FreeMap.lender hm) a registered d reg st) :
    reg.table? ⟨0⟩ = some ⟨m, registered⟩ := by
  rw [hc.table?_eq, hc.lends.1]

/-- There is room for what has some of the sectors in use. -/
theorem exists_room (hc : Serving (FreeMap.lender hm) a registered d reg st) {R : Finset SectorId}
    (hR : R ⊆ st.used d) : ∃ room, m.reserved + R.card + room = m.capacity := by
  have hcard := Finset.card_le_card hR
  have hle := hc.tracks.card_le hm
  exact Nat.le.dest (by omega)

/-- A program that begins with the sectors of `F`, where others have those of `R`. -/
theorem served_informed {p : Program Store α} {F R : Finset SectorId}
    {S : α → Image → Finset SectorId → Prop}
    {Q : α → Image → Finset SectorId → Set Nat → Prop}
    (hc : Serving (FreeMap.lender hm) a registered d reg st) (hused : st.used d = F ∪ R)
    (hdisjoint : Disjoint F R) (hp : p.Secures G S d F) (hq : p.Provided room Q d F K)
    (hroom : m.reserved + R.card + room = m.capacity) (hmap : ∀ n, m.InMap n → n ∈ K) :
    ((RegistryM.served ⟨0⟩ p).run reg).Informed
      (fun x d' K' => ∃ F', S x.1 d' F' ∧ Q x.1 d' F' K') d K := by
  have htracks := hc.tracks
  rw [hused] at htracks
  rw [RegistryM.served_run hc.table_eq, informed_bind]
  refine (FreeMap.serve_informed hm hp hq hdisjoint htracks hroom hmap).imp ?_
  rintro ⟨x, m'⟩ d' K' ⟨-, F', -, -, hs, hq'⟩
  exact ⟨F', hs, hq'⟩

/-- A program that changes an open inode. -/
theorem transact_informed {p : OpenInode → Program Store (α × OpenInode)}
    {S : α × OpenInode → Image → Finset SectorId → Prop}
    {Q : α × OpenInode → Image → Finset SectorId → Set Nat → Prop}
    (hc : Serving (FreeMap.lender hm) a registered d reg st) (hf : st.opened h = some f)
    (hp : (p (f.inodeOn d)).Secures G S d (footprint d f.inode))
    (hq : (p (f.inodeOn d)).Provided room Q d (footprint d f.inode) K)
    (hroom : m.reserved + (st.others d f.inode).card + room = m.capacity)
    (hmap : ∀ n, m.InMap n → n ∈ K) : ((RegistryM.transact h p).run reg).Informed
      (fun x d' K' => ∃ g F', S (x.1, g) d' F' ∧ Q (x.1, g) d' F' K') d K := by
  have htracks := hc.tracks
  rw [FileStore.used_eq_union (hc.live hf)] at htracks
  rw [RegistryM.transact_run (hc.handle hf) hc.table_eq, informed_bind]
  refine (FreeMap.serve_informed hm hp hq (hc.laid.disjoint_others (hc.live hf)) htracks hroom
    hmap).imp ?_
  rintro ⟨⟨x, g⟩, m'⟩ d' K' ⟨-, F', -, -, hs, hq'⟩
  exact ⟨g, F', hs, hq'⟩

end Calls

theorem create_informed (hc : Serving (FreeMap.lender hm) a registered d reg st) (length : Nat)
    (kind : InodeKind) (hroom : m.reserved + (st.used d).card + room = m.capacity)
    (hmap : ∀ n, m.InMap n → n ∈ K) :
    (((Operation.create length kind).perform ⟨0⟩).run reg).Informed
      (fun x d' K' => (∀ s, x.1 = .ok s → Known K' (footprint d' s)) ∧ ∀ e, x.1 = .error e →
        e = .noSpace ∧ room = 0 ∨ 0 < room ∧ Store.NotCreated room length e) d K := by
  refine (hc.served_informed (Finset.empty_union _).symm (Finset.disjoint_empty_left _)
    Store.create_secures Store.create_provided hroom hmap).imp ?_
  rintro ⟨e | s, reg'⟩ d' K' ⟨F', hs, hq⟩
  · refine ⟨fun s hx => (by cases hx), fun e' hx => ?_⟩
    cases hx
    exact hq
  · obtain ⟨P, rfl, hblank⟩ := hs
    refine ⟨fun s' hx => ?_, fun e hx => by cases hx⟩
    cases hx
    rw [hblank.represents.2]
    exact hq.2

theorem createAt_informed (hc : Serving (FreeMap.lender hm) a registered d reg st) {s : SectorId}
    (hs : s ∈ st.held) (length : Nat) (kind : InodeKind) (hmap : ∀ n, m.InMap n → n ∈ K) :
    (((Operation.createAt s length kind).perform ⟨0⟩).run reg).Informed
      (fun x d' K' => x.1 = .ok () → Known K' (footprint d' s)) d K := by
  have hused := used_eq_erase (d := d) hs
  obtain ⟨room, hroom⟩ := hc.exists_room (hused ▸ Finset.subset_union_right)
  refine (hc.served_informed hused (hc.disjoint_erase hs) Store.createAt_secures
    Store.createAt_provided hroom hmap).imp ?_
  rintro ⟨e | ⟨⟩, reg'⟩ d' K' ⟨F', hs, hq⟩ hx
  · cases hx
  · obtain ⟨P, rfl, hblank⟩ := hs
    rw [hblank.represents.2]
    exact hq.2

/-- An open inode has the sectors that it has in the end. -/
theorem footprint_of_becomes {g : OpenInode} {d' : Image} {F P : Finset SectorId} {n : Nat}
    {b : Nat → UInt8} (hb : OpenInode.Becomes (f.inodeOn d) n b g d' F P) :
    footprint d' f.inode = F := hb.stored.footprint_eq.trans hb.owned.symm

theorem extend_informed (hc : Serving (FreeMap.lender hm) a registered d reg st)
    (hf : st.opened h = some f) (target : Nat)
    (hroom : m.reserved + (st.others d f.inode).card + room = m.capacity)
    (hmap : ∀ n, m.InMap n → n ∈ K) (hK : Known K (footprint d f.inode)) :
    (((Operation.extend h target).perform ⟨0⟩).run reg).Informed
      (fun x d' K' => Known K' (footprint d' f.inode) ∧ ∀ e, x.1 = .error e →
        e = .tooLarge target ∧ maxBlocks ≤ target / 512 ∨
          e = .noSpace ∧ target / 512 < maxBlocks ∧ room < 1 + totalSectors (target / 512 + 1))
      d K := by
  have hstored := hc.stored hf
  refine (hc.transact_informed (p := fun f => f.extend target) hf
    (OpenInode.extend_secures target hstored (OpenInode.reached_self _ _ fun _ => none))
    (OpenInode.extend_provided target hstored hK) hroom hmap).imp ?_
  rintro ⟨e | id, reg'⟩ d' K' ⟨g, F', hs, hq⟩
  · refine ⟨?_, hq.2⟩
    obtain ⟨-, -, rfl, hd⟩ := hs
    rw [show footprint d' f.inode = _ from (hstored.congr hd).footprint_eq]
    exact hq.1
  · refine ⟨?_, hq.2⟩
    obtain ⟨-, P, hb⟩ := hs
    rw [footprint_of_becomes hb]
    exact hq.1

theorem writeAt_informed (hc : Serving (FreeMap.lender hm) a registered d reg st)
    (hf : st.opened h = some f) {offset : Nat} (hoffset : offset < 2 ^ 64) (buffer : Bytes)
    (hroom : m.reserved + (st.others d f.inode).card + room = m.capacity)
    (hmap : ∀ n, m.InMap n → n ∈ K) (hK : Known K (footprint d f.inode)) :
    (((Operation.writeAt h offset buffer).perform ⟨0⟩).run reg).Informed
      (fun x d' K' => Known K' (footprint d' f.inode) ∧
        (x.1 < buffer.size → 0 < f.denials ∨ BlockBarred room ((offset + x.1) / 512))) d K := by
  have hstored := hc.stored hf
  refine (hc.transact_informed (p := fun f => f.writeAt offset buffer) hf
    (OpenInode.writeAt_secures buffer hstored hoffset)
    (OpenInode.writeAt_provided buffer hstored hK) hroom hmap).imp ?_
  rintro ⟨count, reg'⟩ d' K' ⟨g, F', ⟨-, -, -, P, hb⟩, hq⟩
  refine ⟨?_, hq.2⟩
  rw [footprint_of_becomes hb]
  exact hq.1

end Serving

end InodeVolume

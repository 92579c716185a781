import InodeVolume.Proofs.Allocation.FreeMap
import InodeVolume.Proofs.Program.Rounds

/-!
A free map that has got back what it handed out is what it was before. Its sectors then hold the
same bytes again, since the loans alone decide what they hold.
-/
namespace InodeVolume

namespace FreeMap

open Program LawfulBlockDevice

variable {m a' : FreeMap} {n : Nat} {d d' : Image} {U : Finset SectorId}

theorem Tracks.marks_eq (h : m.Tracks d U) (h' : m.Tracks d' U) {k : Nat}
    (hk : k < sectorBits * m.blocks) : m.marks d' k = m.marks d k :=
  Bool.eq_iff_iff.2 ((h'.marks_iff _ hk).trans (h.marks_iff _ hk).symm)

/-- Equal loans make equal maps. -/
theorem Tracks.map_eq (h : m.Tracks d U) (h' : m.Tracks d' U) {k : Nat} (hk : m.InMap k) :
    d' k = d k :=
  map_eq_of_marks (fun _ => h.marks_eq h') hk

theorem Tracks.image_eq (h : m.Tracks d U) (h' : m.Tracks d' U)
    (hd : ∀ k, ¬ m.InMap k → d' k = d k) : d' = d :=
  image_eq_of_marks (fun _ => h.marks_eq h') hd

variable {δ : Type} [BlockDevice δ] [LawfulBlockDevice δ] {e e' e'' : δ} {w w' : World δ}
  {t : Dialogue Store} {owned : List SectorId} {id : SectorId}

/-- Two devices that hold the same in all sectors but those of the map. -/
structure SameElsewhere (m : FreeMap) (e e' : δ) : Prop where
  size_eq : size e' = size e
  image_eq (k : Nat) : ¬ m.InMap k → image e' k = image e k

theorem SameElsewhere.refl (m : FreeMap) (e : δ) : SameElsewhere m e e := ⟨rfl, fun _ _ => rfl⟩

theorem SameElsewhere.trans (h : SameElsewhere m e e') (h' : SameElsewhere m e' e'') :
    SameElsewhere m e e'' :=
  ⟨h'.size_eq.trans h.size_eq, fun k hk => (h'.image_eq k hk).trans (h.image_eq k hk)⟩

theorem allocate_run {answer : Option SectorId} (hm : m.Fits n) (hsize : n ≤ size w.device)
    (h : m.Tracks (image w.device) U)
    (hrun : (Allocator.allocate m).run w = (.ok (answer, a'), w')) :
    a' = m ∧ SameElsewhere m w.device w'.device ∧ match answer with
      | none => m.Tracks (image w'.device) U
      | some id => id ∉ U ∧ m.Tracks (image w'.device) (insert id U) := by
  obtain ⟨found, w₁, hfound, hrest⟩ := run_bind_ok hrun
  obtain ⟨⟨⟨-, hpost⟩, hsame⟩, hdevice⟩ := (allocate_ensures hm h).frame.of_run
    (fun k hk => Nat.lt_of_lt_of_le (hm.lt_of_inMap hk) hsize) hfound
  cases hrest
  refine ⟨rfl, ⟨hdevice, hsame⟩, ?_⟩
  cases answer with
  | none => exact hpost.1
  | some id => exact ⟨hpost.1, hpost.2.1⟩

theorem release_run (hm : m.Fits n) (hsize : n ≤ size w.device)
    (h : m.Tracks (image w.device) U) (hid : id ∈ U)
    (hrun : (Allocator.release m id).run w = (.ok a', w')) :
    a' = m ∧ SameElsewhere m w.device w'.device ∧ m.Tracks (image w'.device) (U.erase id) := by
  obtain ⟨_, w₁, hreleased, hrest⟩ := run_bind_ok hrun
  obtain ⟨⟨⟨-, hpost⟩, hsame⟩, hdevice⟩ := (release_ensures hm h hid).frame.of_run
    (fun k hk => Nat.lt_of_lt_of_le (hm.lt_of_inMap hk) hsize) hreleased
  cases hrest
  exact ⟨rfl, ⟨hdevice, hsame⟩, hpost⟩

/-- Calls that settle leave the loans of others behind, whatever they began with. -/
theorem tracks_of_settles (hm : m.Fits n) (hquiet : t.Quiet) (hsettles : Call.Settles owned t.calls)
    (htakes : t.Takes m w a' w') (hsize : n ≤ size w.device) (hnodup : owned.Nodup)
    (hdisjoint : Disjoint owned.toFinset U)
    (h : m.Tracks (image w.device) (owned.toFinset ∪ U)) :
    a' = m ∧ SameElsewhere m w.device w'.device ∧ m.Tracks (image w'.device) U := by
  induction t generalizing owned w with
  | nil =>
    obtain ⟨rfl, rfl⟩ := htakes
    have hnil : owned = [] := hsettles
    rw [hnil, List.toFinset_nil, Finset.empty_union] at h
    exact ⟨rfl, .refl a' _, h⟩
  | cons x t ih =>
    obtain ⟨r, x⟩ := x
    cases r with
    | disk r =>
      cases r with
      | read k => exact hquiet.elim
      | write k s => exact hquiet.elim
      | note notice =>
        obtain ⟨w₁, hnote, hrest⟩ := htakes
        cases hnote
        exact ih (w := ⟨w.device, w.journal.push (.noted notice)⟩) hquiet hsettles hrest hsize
          hnodup hdisjoint h
    | allocate =>
      obtain ⟨a₁, w₁, hrun, hrest⟩ := htakes
      obtain ⟨rfl, hsame, hpost⟩ := allocate_run hm hsize h hrun
      have hsize₁ := hsize.trans_eq hsame.size_eq.symm
      cases x with
      | none =>
        obtain ⟨ha, hsame', htracks⟩ := ih hquiet hsettles hrest hsize₁ hnodup hdisjoint hpost
        exact ⟨ha, hsame.trans hsame', htracks⟩
      | some id =>
        obtain ⟨hid, htracks₁⟩ := hpost
        rw [Finset.mem_union, List.mem_toFinset, not_or] at hid
        rw [← Finset.insert_union, ← List.toFinset_cons] at htracks₁
        have hdisjoint₁ : Disjoint (id :: owned).toFinset U := by
          rw [List.toFinset_cons]
          exact Finset.disjoint_insert_left.2 ⟨hid.2, hdisjoint⟩
        obtain ⟨ha, hsame', htracks⟩ := ih hquiet hsettles hrest hsize₁
          (List.nodup_cons.2 ⟨hid.1, hnodup⟩) hdisjoint₁ htracks₁
        exact ⟨ha, hsame.trans hsame', htracks⟩
    | release id =>
      obtain ⟨a₁, w₁, hrun, hrest⟩ := htakes
      obtain ⟨hid, hsettles₁⟩ := hsettles
      have hmem : id ∈ owned.toFinset := List.mem_toFinset.2 hid
      have hrest₁ : (owned.erase id).toFinset = owned.toFinset.erase id := by
        ext x
        rw [List.mem_toFinset, hnodup.mem_erase_iff, Finset.mem_erase, List.mem_toFinset]
      obtain ⟨rfl, hsame, htracks₁⟩ :=
        release_run hm hsize h (Finset.mem_union_left U hmem) hrun
      rw [erase_union_of_disjoint hdisjoint hmem, ← hrest₁] at htracks₁
      have hdisjoint₁ : Disjoint (owned.erase id).toFinset U := by
        rw [hrest₁]
        exact hdisjoint.mono_left (Finset.erase_subset id _)
      obtain ⟨ha, hsame', htracks⟩ := ih hquiet hsettles₁ hrest
        (hsize.trans_eq hsame.size_eq.symm) (hnodup.erase id) hdisjoint₁ htracks₁
      exact ⟨ha, hsame.trans hsame', htracks⟩

/-- What a dialogue did to a map that is undone cannot be seen on the device. -/
theorem image_eq_of_undone (hm : m.Fits n) (hundone : t.Undone) (htakes : t.Takes m w a' w')
    (hsize : n ≤ size w.device) (h : m.Tracks (image w.device) U) :
    a' = m ∧ size w'.device = size w.device ∧ image w'.device = image w.device := by
  have hempty : m.Tracks (image w.device) (([] : List SectorId).toFinset ∪ U) := by
    rwa [List.toFinset_nil, Finset.empty_union]
  obtain ⟨ha, hsame, htracks⟩ := tracks_of_settles hm hundone.quiet hundone.settles htakes hsize
    List.nodup_nil (by simp) hempty
  exact ⟨ha, hsame.size_eq, h.image_eq htracks hsame.image_eq⟩

end FreeMap

end InodeVolume

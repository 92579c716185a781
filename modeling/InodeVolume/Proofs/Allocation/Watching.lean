import InodeVolume.Proofs.Allocation.FreeMap
import InodeVolume.Proofs.Program.Recording

/-!
A free map under watch. A watch is a property of the calls made to the map so far, of the device and
of the loans, which every call keeps and every write to a lent sector. A map that records its calls
lends sectors as before, and the watch goes on for as long as it lends.
-/
namespace InodeVolume

namespace FreeMap

/-- What is kept true of the calls to a map, of the device and of the loans. A call changes no
sector outside the map. -/
structure Watch (m : FreeMap) where
  holds : List Call → Image → Finset SectorId → Prop
  write {c : List Call} {d : Image} {U : Finset SectorId} {id : SectorId} (s : Sector) :
    holds c d U → id ∈ U → holds c (Function.update d id.index s) U
  refused {c : List Call} {d d' : Image} {U : Finset SectorId} :
    holds c d U → (∀ n, ¬ m.InMap n → d' n = d n) → holds (c ++ [.allocated none]) d' U
  granted {c : List Call} {d d' : Image} {U : Finset SectorId} {id : SectorId} :
    holds c d U → (∀ n, ¬ m.InMap n → d' n = d n) → id ∉ U → m.reserved ≤ id.index →
      holds (c ++ [.allocated (some id)]) d' (insert id U)
  returned {c : List Call} {d d' : Image} {U : Finset SectorId} {id : SectorId} :
    holds c d U → (∀ n, ¬ m.InMap n → d' n = d n) → id ∈ U → m.reserved ≤ id.index →
      holds (c ++ [.released id]) d' (U.erase id)

open Program

variable {m : FreeMap} {size : Nat}

/-- The map under watch is a lender. -/
def Watch.lender (W : m.Watch) (hm : m.Fits size) : Lender (Recorded FreeMap) size where
  lends r d U := r.inner = m ∧ m.Tracks d U ∧ W.holds r.calls d U
  marked := (FreeMap.lender hm).marked
  index_lt h hid := (FreeMap.lender hm).index_lt ⟨h.1, h.2.1⟩ hid
  marked_of_lends h := (FreeMap.lender hm).marked_of_lends ⟨h.1, h.2.1⟩
  write h hid := ⟨h.1, h.2.1.write hid _, W.write _ h.2.2 hid⟩
  allocate {r d U} h := by
    obtain ⟨rfl, htracks, hwatch⟩ := h
    simp only [Allocator.allocate, bind_eq, pure_eq, bind_bind, done_bind, ensures_bind,
      ensures_done]
    refine (allocate_ensures hm htracks).frame.mono (fun _ hn => hm.lt_of_inMap hn)
      (fun _ _ hg => hg.1) ?_
    rintro (_ | id) d' ⟨⟨hd, hpost⟩, hframe⟩
    · exact ⟨hd, rfl, hpost.1, W.refused hwatch hframe⟩
    · obtain ⟨hnew, htracks', -⟩ := hpost
      have hreserved := htracks'.reserved_le (Finset.mem_insert_self id U)
      exact ⟨hd, hnew, rfl, htracks', W.granted hwatch hframe hnew hreserved⟩
  release {r d U id} h hid := by
    obtain ⟨rfl, htracks, hwatch⟩ := h
    simp only [Allocator.release, bind_eq, pure_eq, bind_bind, done_bind, ensures_bind,
      ensures_done]
    refine (release_ensures hm htracks hid).frame.mono (fun _ hn => hm.lt_of_inMap hn)
      (fun _ _ hg => hg.1) ?_
    rintro _ d' ⟨⟨hd, htracks'⟩, hframe⟩
    exact ⟨hd, trivial, htracks', W.returned hwatch hframe hid (htracks.reserved_le hid)⟩

/-- Two watches at once. -/
def Watch.and (W W' : m.Watch) : m.Watch where
  holds c d U := W.holds c d U ∧ W'.holds c d U
  write s h hid := ⟨W.write s h.1 hid, W'.write s h.2 hid⟩
  refused h hd := ⟨W.refused h.1 hd, W'.refused h.2 hd⟩
  granted h hd hid hr := ⟨W.granted h.1 hd hid hr, W'.granted h.2 hd hid hr⟩
  returned h hd hid hr := ⟨W.returned h.1 hd hid hr, W'.returned h.2 hd hid hr⟩

/-- The map lies behind sector 0, and no sector of that number is lent. -/
def watchZero (hm : m.Fits size) (s : Sector) : m.Watch where
  holds _ d _ := d 0 = s
  write _ h _ := (Function.update_of_ne (Nat.ne_of_lt (SectorId.index_pos _)) _ _).trans h
  refused h hd := (hd 0 hm.not_inMap_zero).trans h
  granted h hd _ _ := (hd 0 hm.not_inMap_zero).trans h
  returned h hd _ _ := (hd 0 hm.not_inMap_zero).trans h

end FreeMap

end InodeVolume

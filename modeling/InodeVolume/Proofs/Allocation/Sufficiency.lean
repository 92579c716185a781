import InodeVolume.Proofs.Allocation.Counting
import InodeVolume.Proofs.Inode.Provision

/-!
The free map refuses only when it has to, and it reads nothing but itself. So a program that it
serves has for itself all sectors that the map accounts for and has not lent to others.
-/
namespace InodeVolume

namespace FreeMap

open Program

variable {m : FreeMap} {size : Nat} {d : Image} {U : Finset SectorId}

/-- All sectors are taken if and only if as many are as the map accounts for. -/
theorem Tracks.full (h : m.Tracks d U) (hall : ∀ n, n < m.capacity → m.Taken U n) :
    m.capacity ≤ m.reserved + U.card := by
  have hsubset : Finset.range m.capacity ⊆ m.usedNumbers U := by
    intro n hn
    rw [usedNumbers, Finset.mem_union, Finset.mem_range, Finset.mem_image]
    exact hall n (Finset.mem_range.1 hn)
  have hcard := Finset.card_le_card hsubset
  rwa [Finset.card_range, h.card_usedNumbers] at hcard

theorem Tracks.taken_of_full (hm : m.Fits size) (h : m.Tracks d U)
    (hfull : m.capacity ≤ m.reserved + U.card) {n : Nat} (hn : n < m.capacity) : m.Taken U n := by
  have hall : m.usedNumbers U = Finset.range m.capacity :=
    Finset.eq_of_subset_of_card_le (h.usedNumbers_subset hm) (by
      rwa [Finset.card_range, h.card_usedNumbers])
  have hmem : n ∈ m.usedNumbers U := hall ▸ Finset.mem_range.2 hn
  rwa [usedNumbers, Finset.mem_union, Finset.mem_range, Finset.mem_image] at hmem

/-- A sector is handed out unless all are taken. -/
theorem allocate_exact (hm : m.Fits size) (h : m.Tracks d U) :
    m.allocate.Ensures m.InMap (fun _ _ => True)
      (fun x d' => Agree U d d' ∧ match x with
        | none => m.capacity ≤ m.reserved + U.card ∧ m.Tracks d' U
        | some id => m.reserved + U.card < m.capacity ∧ id ∉ U ∧ m.Tracks d' (insert id U)) d := by
  refine (allocate_ensures hm h).mono (fun _ => id) (fun _ _ _ => trivial) ?_
  rintro (_ | id) d' ⟨hd, hpost⟩
  · exact ⟨hd, h.full hpost.2, hpost.1⟩
  · have hcard := hpost.2.1.card_le hm
    rw [Finset.card_insert_of_notMem hpost.1] at hcard
    exact ⟨hd, hcard, hpost.1, hpost.2.1⟩

theorem allocate_free_ensures (hm : m.Fits size) (h : m.Tracks d U)
    (hlt : m.reserved + U.card < m.capacity) :
    m.allocate.Ensures (· < size) (fun _ _ => True)
      (fun x d' => ∃ id, x = some id ∧ id ∉ U ∧ m.Tracks d' (insert id U)) d := by
  refine (allocate_exact hm h).mono (fun _ hn => hm.lt_of_inMap hn) (fun _ _ _ => trivial) ?_
  rintro (_ | id) d' ⟨-, hpost⟩
  · exact absurd hpost.1 (Nat.not_le.2 hlt)
  · exact ⟨id, rfl, hpost.2⟩

section Serving

variable {α : Type} {p : Program Store α} {F R : Finset SectorId} {K : Set Nat} {room : Nat}
  {G : Finset SectorId → Image → Image → Prop} {S : α → Image → Finset SectorId → Prop}
  {Q : α → Image → Finset SectorId → Set Nat → Prop}

/-- A program that owns `F`, served by a map that has lent `R` to others besides: there is room in
it for all sectors but theirs. -/
theorem serve_informed (hm : m.Fits size) (h : p.Secures G S d F) (hp : p.Provided room Q d F K)
    (hdisjoint : Disjoint F R) (htracks : m.Tracks d (F ∪ R))
    (hroom : m.reserved + R.card + room = m.capacity) (hmap : ∀ n, m.InMap n → n ∈ K) :
    (p.serve m).Informed (fun x d' K' => x.2 = m ∧ ∃ F', Disjoint F' R ∧ m.Tracks d' (F' ∪ R) ∧
      S x.1 d' F' ∧ Q x.1 d' F' K') d K := by
  induction p generalizing d F K with
  | done x => exact ⟨rfl, F, hdisjoint, htracks, h, hp⟩
  | fault f => trivial
  | ask r next ih =>
    cases r with
    | disk r =>
      cases r with
      | read n => exact ⟨hp.1, ih (d n) h.2 hp.2 hdisjoint htracks hmap⟩
      | write n s =>
        obtain ⟨⟨id, hid, rfl⟩, -, hnext⟩ := h
        exact ih () hnext hp hdisjoint (htracks.write (Finset.mem_union_left R hid) s)
          fun n hn => Set.mem_insert_of_mem _ (hmap n hn)
      | note msg => exact ih () h hp hdisjoint htracks hmap
    | allocate =>
      rw [serve, informed_bind]
      simp only [Allocator.allocate, bind_eq, pure_eq, informed_bind, informed_done]
      refine ((allocate_exact hm htracks).informed hmap).imp ?_
      rintro answer d' K' ⟨⟨hd, hcase⟩, rfl⟩
      have hF : Agree F d d' := hd.mono Finset.subset_union_left
      rw [Finset.card_union_of_disjoint hdisjoint] at hcase
      obtain ⟨-, hnone, hsome⟩ := h d' hF
      cases answer with
      | none => exact ih none hnone ((hp d' hF).1 (by omega)) hdisjoint hcase.2 hmap
      | some id =>
        obtain ⟨hlt, hid, htracks'⟩ := hcase
        rw [Finset.mem_union, not_or] at hid
        rw [← Finset.insert_union] at htracks'
        exact ih (some id) (hsome id hid.1) ((hp d' hF).2 id hid.1 (by omega))
          (Finset.disjoint_insert_left.2 ⟨hid.2, hdisjoint⟩) htracks' hmap
    | release id =>
      obtain ⟨hid, hnext⟩ := h
      have hrelease := release_ensures hm htracks (Finset.mem_union_left R hid)
      rw [erase_union_of_disjoint hdisjoint hid] at hrelease
      rw [serve, informed_bind]
      simp only [Allocator.release, bind_eq, pure_eq, informed_bind, informed_done]
      refine (hrelease.informed hmap).imp ?_
      rintro _ d' K' ⟨⟨hd, htracks'⟩, rfl⟩
      have hF : Agree (F.erase id) d d' := hd.mono Finset.subset_union_left
      exact ih () (hnext d' hF).2 (hp d' hF) (hdisjoint.mono_left (Finset.erase_subset id F))
        htracks' hmap

/-- The same of a whole run, in which nothing has to be unknown. -/
theorem serve_ensures (hm : m.Fits size) (h : p.Secures G S d F)
    (hp : p.Provided room Q d F Set.univ) (hdisjoint : Disjoint F R) (htracks : m.Tracks d (F ∪ R))
    (hroom : m.reserved + R.card + room = m.capacity) :
    (p.serve m).Ensures (· < size) (fun _ _ => True) (fun x d' => x.2 = m ∧ ∃ F', Disjoint F' R ∧
      m.Tracks d' (F' ∪ R) ∧ S x.1 d' F' ∧ ∃ K', Q x.1 d' F' K') d := by
  refine ((h.serve (lender hm) hdisjoint ⟨rfl, htracks⟩).and (serve_informed hm h hp hdisjoint
    htracks hroom fun _ _ => trivial)).mono (fun _ hn => hn) (fun _ _ _ => trivial) ?_
  rintro x d' ⟨-, K', hx, F', hF', htracks', hs, hq⟩
  exact ⟨hx, F', hF', htracks', hs, K', hq⟩

end Serving

/-- An inode is created if there are enough free sectors for it. -/
theorem createAt_ensures {s : SectorId} {length : Nat} (kind : InodeKind) (hm : m.Fits size)
    (h : m.Tracks d U) (hs : s ∈ U) (hlength : length ≤ maxFileSize)
    (hle : m.reserved + U.card + totalSectors (dataBlocks length) ≤ m.capacity) :
    ((Store.createAt s length kind).serve m).Ensures (· < size) (fun _ _ => True)
      (fun x d' => x = (.ok (), m) ∧
        ∃ P, Disjoint P U ∧ Blank d' s length kind P ∧ m.Tracks d' (U ∪ P)) d := by
  have hset : {s} ∪ U.erase s = U := by
    rw [← Finset.insert_eq, Finset.insert_erase hs]
  have hcard := Finset.card_erase_add_one hs
  obtain ⟨room, hroom⟩ : ∃ room, m.reserved + (U.erase s).card + room = m.capacity :=
    Nat.le.dest (by omega)
  refine (serve_ensures hm (R := U.erase s) Store.createAt_secures Store.createAt_provided
    (Finset.disjoint_singleton_left.2 (Finset.notMem_erase s U)) (by rwa [hset]) hroom).imp ?_
  rintro ⟨e | ⟨⟩, m'⟩ d' ⟨hm', F', hF', htracks, hs', K', hq⟩
  · rcases hq with ⟨-, hlarge⟩ | ⟨-, -, hfew⟩
    · exact absurd (dataBlocks_le hlength) (Nat.not_le.2 hlarge)
    · omega
  · obtain ⟨P, rfl, hblank⟩ := hs'
    obtain rfl : m = m' := hm'.symm
    have hunion : insert s P ∪ U.erase s = U ∪ P := by
      rw [Finset.insert_union, Finset.union_comm, ← Finset.insert_union, Finset.insert_erase hs]
    refine ⟨rfl, P, Finset.disjoint_left.2 fun x hx hxU => ?_, hblank, hunion ▸ htracks⟩
    by_cases hxs : x = s
    · exact hblank.stored.apart (hxs ▸ hx)
    · exact (Finset.disjoint_left.1 hF') (Finset.mem_insert_of_mem hx)
        (Finset.mem_erase.2 ⟨hxs, hxU⟩)

end FreeMap

end InodeVolume

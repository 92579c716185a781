import InodeVolume.Device.SectorArray
import InodeVolume.Proofs.Inode.Creation
import InodeVolume.Proofs.Inode.Mapping
import InodeVolume.Proofs.Program.Dialogue

/-!
The balance of growth. An inode that has exactly its first blocks grows out of a list of as many
sectors as are counted for it: each of them comes into use, the blocks from before stay where they
are, and giving everything back returns the sectors from before and those of the list. Growth in two
parts is the same as growth at once.
-/
namespace InodeVolume

namespace PointerSlot

theorem nodup_newAt (a : BlockAddress) : (newAt a).Nodup := by
  cases a with
  | direct i => simp [newAt]
  | indirect outer inner => by_cases hi : inner.val = 0 <;> simp [newAt, hi]
  | doubleIndirect outer inner =>
    by_cases hi : inner.val = 0 <;> by_cases ho : outer.val = 0 <;> simp [newAt, hi, ho]

theorem nodup_newIn (first count : Nat) : (newIn first count).Nodup := by
  induction count generalizing first with
  | zero => exact List.nodup_nil
  | succ count ih =>
    cases ha : BlockAddress.ofIndex? first with
    | none =>
      rw [newIn, ha]
      exact ih (first + 1)
    | some a =>
      obtain rfl := BlockAddress.toIndex_of_ofIndex? ha
      rw [newIn_toIndex_succ]
      refine List.nodup_append'.2 ⟨nodup_newAt a, ih _, fun s hs hs' => ?_⟩
      have hat := mem_newAt.1 hs
      have hafter := (mem_newIn.1 hs').1
      omega

/-- The blocks from `first` on need as many slots as `totalSectors` counts for them. -/
theorem length_newIn {first count : Nat} (h : first + count ≤ maxBlocks) :
    totalSectors (first + count) = totalSectors first + (newIn first count).length := by
  induction count generalizing first with
  | zero => rfl
  | succ count ih =>
    obtain ⟨a, rfl⟩ := BlockAddress.exists_toIndex_eq (show first < maxBlocks by omega)
    rw [show a.toIndex + (count + 1) = a.toIndex + 1 + count by omega, ih (by omega),
      length_newAt, newIn_toIndex_succ, List.length_append, Nat.add_assoc]

end PointerSlot

/-- An inode that has its first `n` blocks has `totalSectors n` pointers. -/
theorem Linked.card_eq {look : PointerSlot → Option SectorId} {n : Nat} {P : Finset SectorId}
    (h : Linked look (fun s => s.first < n) P) (hn : n ≤ maxBlocks) : P.card = totalSectors n := by
  have hmem (s : PointerSlot) : s ∈ PointerSlot.newIn 0 n ↔ s.first < n := by
    rw [PointerSlot.mem_newIn]
    omega
  have hset : P = ((PointerSlot.newIn 0 n).filterMap look).toFinset := by
    ext id
    rw [h.mem_iff, List.mem_toFinset, List.mem_filterMap]
    refine exists_congr fun s => (and_iff_right_of_imp fun hs => ?_).symm
    exact (hmem s).2 ((h.isSome_iff s).1 (by rw [hs, Option.isSome_some]))
  have hnodup : ((PointerSlot.newIn 0 n).filterMap look).Nodup :=
    (PointerSlot.nodup_newIn 0 n).filterMap fun _ _ _ hs ht => h.injective hs ht
  have hlength : ((PointerSlot.newIn 0 n).filterMap look).length =
      (PointerSlot.newIn 0 n).length :=
    List.filterMap_length_eq_length.2 fun s hs => (h.isSome_iff s).2 ((hmem s).1 hs)
  have hcount : totalSectors (0 + n) = totalSectors 0 + (PointerSlot.newIn 0 n).length :=
    PointerSlot.length_newIn (by omega)
  rw [Nat.zero_add, show totalSectors 0 = 0 from rfl, Nat.zero_add] at hcount
  rw [hset, List.toFinset_card_of_nodup hnodup, hlength, hcount]

namespace InodeRecord

/-- Exactly the blocks below `n` are mapped: their slots hold pairwise different pointers, and all
other slots are empty. -/
def Maps (r : InodeRecord) (d : Image) (n : Nat) : Prop :=
  Linked (r.pointerAt d) (fun s => s.first < n) (r.pointers d)

variable {r r' : InodeRecord} {d : Image} {n i j : Nat} {id : SectorId}

theorem maps_of_linked {P : Finset SectorId}
    (h : Linked (r.pointerAt d) (fun s => s.first < n) P) : r.Maps d n := by
  have hpointers := h.pointers_eq
  rwa [Maps, hpointers]

/-- A new record maps no block. -/
theorem maps_fresh (kind : InodeKind) (d : Image) : (fresh kind).Maps d 0 :=
  maps_of_linked (linked_fresh kind)

namespace Maps

theorem exists_blockAt (h : r.Maps d n) (hi : i < n) (hn : n ≤ maxBlocks) :
    ∃ id, r.blockAt d i = some id := by
  obtain ⟨a, rfl⟩ := BlockAddress.exists_toIndex_eq (hi.trans_le hn)
  obtain ⟨id, hid⟩ := Linked.exists_some h (s := .data a) hi
  exact ⟨id, (blockAt_toIndex a).trans hid⟩

theorem blockAt_eq_none (h : r.Maps d n) (hi : n ≤ i) : r.blockAt d i = none := by
  cases ha : BlockAddress.ofIndex? i with
  | none => rw [blockAt, ha, Option.bind_none]
  | some a =>
    obtain rfl := BlockAddress.toIndex_of_ofIndex? ha
    exact (blockAt_toIndex a).trans (Linked.eq_none h (s := .data a) (Nat.not_lt.2 hi))

/-- No two blocks share a sector. -/
theorem blockAt_injective (h : r.Maps d n) (hi : r.blockAt d i = some id)
    (hj : r.blockAt d j = some id) : i = j := by
  obtain ⟨a, rfl, ha⟩ := blockAt_eq_some_iff.1 hi
  obtain ⟨b, rfl, hb⟩ := blockAt_eq_some_iff.1 hj
  cases Linked.injective h (s := .data a) (t := .data b) ha hb
  rfl

end Maps

end InodeRecord

namespace Program

variable {δ α β : Type} [BlockDevice δ]

/-- `p` answers `a` and writes nothing. -/
def Answers (p : Program Disk α) (w : World δ) (a : α) : Prop :=
  ∃ v, p.run w = (.ok a, v) ∧ v.device = w.device ∧ v.writes = w.writes

theorem Answers.unique {p : Program Disk α} {w : World δ} {a b : α} (h : p.Answers w a)
    (h' : p.Answers w b) : a = b := by
  obtain ⟨v, h, -⟩ := h
  obtain ⟨v', h', -⟩ := h'
  rw [h] at h'
  cases h'
  rfl

/-- Where `p` ends with sectors left over, `q` does the same and has those of `more` left over,
too. -/
def Carries (δ : Type) [BlockDevice δ] (more : List SectorId)
    (p q : Program Disk (α × List SectorId)) : Prop :=
  ∀ (w : World δ) (a : α) (rest : List SectorId) (w' : World δ),
    p.run w = (.ok (a, rest), w') → q.run w = (.ok (a, rest ++ more), w')

section Carries

variable {more : List SectorId}

theorem carries_done (a : α) (rest : List SectorId) :
    Carries δ more (done (a, rest)) (done (a, rest ++ more)) := by
  intro w b rest' w' h
  cases h
  rfl

theorem Carries.bind {p q : Program Disk (α × List SectorId)}
    {k k' : α × List SectorId → Program Disk (β × List SectorId)} (h : Carries δ more p q)
    (hk : ∀ a rest, Carries δ more (k (a, rest)) (k' (a, rest ++ more))) :
    Carries δ more (p.bind k) (q.bind k') := by
  intro w b rest w' hrun
  obtain ⟨⟨a, rest₁⟩, w₁, hp, hnext⟩ := run_bind_ok hrun
  rw [run_bind, h w a rest₁ w₁ hp]
  exact hk a rest₁ w₁ b rest w' hnext

/-- Both do the same first. -/
theorem carries_bind (p : Program Disk α) {k k' : α → Program Disk (β × List SectorId)}
    (hk : ∀ a, Carries δ more (k a) (k' a)) : Carries δ more (p.bind k) (p.bind k') := by
  intro w b rest w' hrun
  obtain ⟨a, w₁, hp, hnext⟩ := run_bind_ok hrun
  rw [run_bind, hp]
  exact hk a w₁ b rest w' hnext

end Carries

end Program

namespace InodeRecord

open Program

section Parts

variable {δ : Type} [BlockDevice δ] (more : List SectorId)

theorem nextSector_carries (obtained : List SectorId) :
    Carries δ more (nextSector obtained) (nextSector (obtained ++ more)) := by
  cases obtained with
  | nil =>
    intro w a rest w' h
    cases h
  | cons id obtained => exact carries_done id obtained

theorem newIndexBlock_carries (obtained : List SectorId) :
    Carries δ more (newIndexBlock obtained) (newIndexBlock (obtained ++ more)) :=
  (nextSector_carries more obtained).bind fun id rest =>
    carries_bind _ fun _ => carries_done id rest

theorem link_carries (r : InodeRecord) (data : SectorId) (obtained : List SectorId)
    (a : BlockAddress) :
    Carries δ more (r.link data obtained a) (r.link data (obtained ++ more) a) := by
  cases a with
  | direct i => exact carries_done _ obtained
  | indirect outer inner =>
    simp only [link, bind_eq, pure_eq, done_bind]
    split
    · exact (newIndexBlock_carries more obtained).bind fun index rest => carries_bind _ fun _ =>
        carries_bind _ fun _ => carries_done _ rest
    · exact carries_bind _ fun index => carries_bind _ fun _ => carries_done r obtained
  | doubleIndirect outer inner =>
    simp only [link, bind_eq, pure_eq, done_bind]
    split
    · refine (newIndexBlock_carries more obtained).bind fun upper rest => carries_bind _ fun _ => ?_
      split
      · exact (newIndexBlock_carries more rest).bind fun index rest => carries_bind _ fun _ =>
          carries_bind _ fun _ => carries_done _ rest
      · exact carries_bind _ fun _ => carries_bind _ fun index => carries_bind _ fun _ =>
          carries_done _ rest
    · refine carries_bind _ fun double => ?_
      split
      · exact (newIndexBlock_carries more obtained).bind fun index rest => carries_bind _ fun _ =>
          carries_bind _ fun _ => carries_done r rest
      · exact carries_bind _ fun _ => carries_bind _ fun index => carries_bind _ fun _ =>
          carries_done r obtained

theorem growBlock_carries (r : InodeRecord) (index : Nat) (obtained : List SectorId) :
    Carries δ more (r.growBlock index obtained) (r.growBlock index (obtained ++ more)) :=
  (nextSector_carries more obtained).bind fun data rest => carries_bind _ fun _ =>
    carries_bind _ fun a => link_carries more r data rest a

/-- Growth leaves alone what stands behind the sectors that it takes. -/
theorem grow_carries (r : InodeRecord) (first : Nat) (obtained : List SectorId) (count : Nat) :
    Carries δ more (r.grow first obtained count) (r.grow first (obtained ++ more) count) := by
  induction count generalizing r first obtained with
  | zero => exact carries_done r obtained
  | succ count ih =>
    exact (growBlock_carries more r first obtained).bind fun r rest => ih r (first + 1) rest

/-- Growth in two parts. -/
theorem grow_add (r : InodeRecord) (first : Nat) (obtained : List SectorId) (count later : Nat) :
    r.grow first obtained (count + later) =
      (r.grow first obtained count).bind fun x => grow x.1 (first + count) x.2 later := by
  induction count generalizing r first obtained with
  | zero => rw [Nat.zero_add, grow, pure_eq, done_bind, Nat.add_zero]
  | succ count ih =>
    rw [show count + 1 + later = count + later + 1 by omega, grow, grow, bind_eq, bind_eq,
      bind_bind]
    refine congrArg _ (funext fun x => ?_)
    obtain ⟨r₁, rest⟩ := x
    dsimp only
    rw [ih, show first + 1 + count = first + (count + 1) by omega]

end Parts

section Growth

open LawfulBlockDevice

variable {δ : Type} [BlockDevice δ] [LawfulBlockDevice δ] {r r' : InodeRecord} {w w' : World δ}
  {n₀ n₁ : Nat} {ids : List SectorId}

/-- The index blocks of the record lie on the device. -/
def IndexOnDevice (r : InodeRecord) (device : δ) : Prop :=
  ∀ p id, r.indexAt (image device) p = some id → id.index < LawfulBlockDevice.size device

theorem blockSector_answers (h : r.IndexOnDevice w.device) (i : Nat) :
    (r.blockSector i).Answers w (r.blockAt (image w.device) i) := by
  obtain ⟨x, v, hrun, rfl, hdevice, hwrites⟩ :=
    (blockSector_ensures (r := r) (n := i) (A := (· < LawfulBlockDevice.size w.device))
      (G := fun _ _ => False) (Q := fun x _ => x = r.blockAt (image w.device) i) h rfl).run_silent
      fun _ hk => hk
  exact ⟨v, hrun, hdevice, hwrites⟩

theorem reachable_answers (h : r.IndexOnDevice w.device) :
    r.reachable.Answers w (r.pointerList (image w.device)) := by
  obtain ⟨x, v, hrun, rfl, hdevice, hwrites⟩ :=
    (reachable_ensures (r := r) (A := (· < LawfulBlockDevice.size w.device))
      (G := fun _ _ => False) (Q := fun x _ => x = r.pointerList (image w.device)) h rfl).run_silent
      fun _ hk => hk
  exact ⟨v, hrun, hdevice, hwrites⟩

/-- What growth from `n₀` to `n₁` blocks with the sectors `ids` comes to. -/
structure Balanced (r : InodeRecord) (w : World δ) (n₀ n₁ : Nat) (ids : List SectorId)
    (r' : InodeRecord) (w' : World δ) : Prop where
  /-- No assertion fails, and nothing is left over. -/
  run_eq : (r.grow n₀ ids (n₁ - n₀)).run w = (.ok (r', []), w')
  kept {i : Nat} : i < n₀ → ∃ id, (r.blockSector i).Answers w (some id) ∧
    (r'.blockSector i).Answers w' (some id)
  added {i : Nat} : n₀ ≤ i → i < n₁ → ∃ id ∈ ids, (r'.blockSector i).Answers w' (some id) ∧
    image w'.device id.index = Sector.zero
  distinct {i j : Nat} {id : SectorId} : (r'.blockSector i).Answers w' (some id) →
    (r'.blockSector j).Answers w' (some id) → i = j
  beyond {i : Nat} : n₁ ≤ i → (r'.blockSector i).Answers w' none
  /-- Only sectors of the list and index blocks from before are written. -/
  written : ∃ writes, w'.writes = w.writes ++ writes ∧ ∀ v ∈ writes,
    (∃ id ∈ ids, id.index = v.1) ∨ ∃ p id, r.indexAt (image w.device) p = some id ∧ id.index = v.1
  /-- Giving back returns what was reached before and the list. -/
  returned : ∃ before after, r.reachable.Answers w before ∧ r'.reachable.Answers w' after ∧
    after.Perm (before ++ ids) ∧ after.length = totalSectors n₁
  /-- Growth in two parts comes to the same. -/
  parts {m : Nat} {l₁ l₂ : List SectorId} : n₀ ≤ m → m ≤ n₁ → ids = l₁ ++ l₂ →
    l₁.length = totalSectors m - totalSectors n₀ →
    ∃ r₁ w₁, (r.grow n₀ l₁ (m - n₀)).run w = (.ok (r₁, []), w₁) ∧
      (r₁.grow m l₂ (n₁ - m)).run w₁ = (.ok (r', []), w')

variable (hmaps : r.Maps (image w.device) n₀) (hdevice : r.IndexOnDevice w.device)
  (hle : n₀ ≤ n₁) (hmax : n₁ ≤ maxBlocks)
  (hlength : ids.length = totalSectors n₁ - totalSectors n₀) (hnodup : ids.Nodup)
  (hids : ∀ id ∈ ids, id.index < LawfulBlockDevice.size w.device)
  (hnew : ∀ id ∈ ids, id ∉ r.pointers (image w.device))

include hmaps hdevice hle hmax hlength hnodup hids hnew

/-- Growth with the sectors that were counted for it. -/
theorem grow_run : ∃ r' w', (r.grow n₀ ids (n₁ - n₀)).run w = (.ok (r', []), w') ∧
    Growing n₀ r (image w.device) (fun s => s.first < n₁)
      (r.pointers (image w.device) ∪ ids.toFinset) r' (image w'.device) ∧
    (PointerSlot.newIn n₀ (n₁ - n₀)).map (r'.pointerAt (image w'.device)) = ids.map some ∧
    LawfulBlockDevice.size w'.device = LawfulBlockDevice.size w.device ∧
    (∀ a : BlockAddress, n₀ ≤ a.toIndex → a.toIndex < n₁ →
      ∃ id, r'.dataAt (image w'.device) a = some id ∧ image w'.device id.index = Sector.zero) ∧
    ∃ writes, w'.writes = w.writes ++ writes ∧ ∀ v ∈ writes, (∃ id ∈ ids, id.index = v.1) ∨
      ∃ p id, r.indexAt (image w.device) p = some id ∧ id.index = v.1 := by
  classical
  have hmono := totalSectors_mono hle
  have hcount : n₀ + (n₁ - n₀) = n₁ := by omega
  -- Besides the new sectors growth touches the index blocks of the record.
  let X := (r.pointers (image w.device)).filter fun id =>
    ∃ p, r.indexAt (image w.device) p = some id
  have hX (p : IndexSlot) (id : SectorId) (hp : r.indexAt (image w.device) p = some id) :
      id ∈ X := Finset.mem_filter.2 ⟨mem_pointers.2 ⟨.index p, hp⟩, p, hp⟩
  have hgrow := grow_within (n₁ - n₀) hmaps (Finset.filter_subset _ _) hX (by omega) hnew hnodup
    (by rw [hcount, hlength]; omega)
  rw [hcount] at hgrow
  have howned (k : Nat) (hk : Owned (X ∪ ids.toFinset) k) : (∃ id ∈ ids, id.index = k) ∨
      ∃ p id, r.indexAt (image w.device) p = some id ∧ id.index = k := by
    obtain ⟨id, hid, rfl⟩ := hk
    rcases Finset.mem_union.1 hid with hold | hlist
    · obtain ⟨-, p, hp⟩ := Finset.mem_filter.1 hold
      exact .inr ⟨p, id, hp, rfl⟩
    · exact .inl ⟨id, List.mem_toFinset.1 hlist, rfl⟩
  have hsector (k : Nat) (hk : Owned (X ∪ ids.toFinset) k) :
      k < LawfulBlockDevice.size w.device := by
    rcases howned k hk with ⟨id, hid, rfl⟩ | ⟨p, id, hp, rfl⟩
    · exact hids id hid
    · exact hdevice p id hp
  obtain ⟨⟨r', rest⟩, w', _, hrun, ⟨hrest, hgrowing, hfilled, hzero⟩, hsize, -⟩ :=
    hgrow.run hsector
  obtain rfl : rest = [] := hrest
  obtain ⟨writes, hwrites, hwithin⟩ := hgrow.writes_within hsector hrun
  exact ⟨r', w', hrun, hgrowing, hfilled, hsize, hzero, writes, hwrites,
    fun v hv => howned v.1 (hwithin v hv)⟩

/-- Growth takes exactly what is counted for it, and giving back returns exactly that besides what
was there before. -/
theorem grow_balanced : ∃ r' w', Balanced r w n₀ n₁ ids r' w' := by
  obtain ⟨r', w', hrun, hgrowing, hfilled, hsize, hzero, hwritten⟩ :=
    grow_run hmaps hdevice hle hmax hlength hnodup hids hnew
  have hmaps' : r'.Maps (image w'.device) n₁ := maps_of_linked hgrowing.linked
  have hold (s : PointerSlot) (hs : s.first < n₀) :
      r'.pointerAt (image w'.device) s = r.pointerAt (image w.device) s :=
    (hgrowing.extension.pointerAt_eq hs).trans (hgrowing.preserves.pointer s hs)
  have hlist (s : PointerSlot) (h₀ : n₀ ≤ s.first) (h₁ : s.first < n₁) {id : SectorId}
      (hid : r'.pointerAt (image w'.device) s = some id) : id ∈ ids := by
    have hmem := List.mem_map_of_mem (f := r'.pointerAt (image w'.device))
      (PointerSlot.mem_newIn.2 ⟨h₀, show s.first < n₀ + (n₁ - n₀) by omega⟩)
    rw [hfilled, hid] at hmem
    obtain ⟨x, hx, he⟩ := List.mem_map.1 hmem
    cases he
    exact hx
  have hdevice' : r'.IndexOnDevice w'.device := by
    intro p id hid
    have hlt : p.first < n₁ := (hmaps'.isSome_iff (.index p)).1 (Option.isSome_of_eq_some hid)
    rw [hsize]
    by_cases hp : p.first < n₀
    · exact hdevice p id ((hold (.index p) hp).symm.trans hid)
    · exact hids id (hlist (.index p) (Nat.not_lt.1 hp) hlt hid)
  have hkept {i : Nat} (hi : i < n₀) :
      r'.blockAt (image w'.device) i = r.blockAt (image w.device) i := by
    cases ha : BlockAddress.ofIndex? i with
    | none => rw [blockAt, blockAt, ha, Option.bind_none, Option.bind_none]
    | some a =>
      obtain rfl := BlockAddress.toIndex_of_ofIndex? ha
      rw [blockAt_toIndex, blockAt_toIndex]
      exact hold (.data a) hi
  refine ⟨r', w', {
    run_eq := hrun
    kept := fun {i} hi => ?_
    added := fun {i} h₀ h₁ => ?_
    distinct := fun {i j id} hi hj => ?_
    beyond := fun {i} hi => ?_
    written := hwritten
    returned := ?_
    parts := fun {m l₁ l₂} h₀ h₁ happend hcount => ?_ }⟩
  · obtain ⟨id, hid⟩ := hmaps.exists_blockAt hi (by omega)
    have hbefore := blockSector_answers hdevice i
    have hafter := blockSector_answers hdevice' i
    rw [hid] at hbefore
    rw [hkept hi, hid] at hafter
    exact ⟨id, hbefore, hafter⟩
  · obtain ⟨id, hid⟩ := hmaps'.exists_blockAt h₁ hmax
    obtain ⟨a, rfl, ha⟩ := blockAt_eq_some_iff.1 hid
    obtain ⟨x, hx, hblank⟩ := hzero a h₀ h₁
    rw [ha] at hx
    cases hx
    have hafter := blockSector_answers hdevice' a.toIndex
    rw [hid] at hafter
    exact ⟨id, hlist (.data a) h₀ h₁ ha, hafter, hblank⟩
  · have hi' := (blockSector_answers hdevice' i).unique hi
    have hj' := (blockSector_answers hdevice' j).unique hj
    exact hmaps'.blockAt_injective hi' hj'
  · have hafter := blockSector_answers hdevice' i
    rw [hmaps'.blockAt_eq_none hi] at hafter
    exact hafter
  · refine ⟨_, _, reachable_answers hdevice, reachable_answers hdevice', ?_, ?_⟩
    · have hbefore := hmaps.nodup_pointerList
      refine List.perm_of_nodup_nodup_toFinset_eq hmaps'.nodup_pointerList ?_ ?_
      · refine List.nodup_append'.2 ⟨hbefore, hnodup, fun id hid hid' => hnew id hid' ?_⟩
        rwa [← toFinset_pointerList, List.mem_toFinset]
      · rw [toFinset_pointerList, hgrowing.linked.pointers_eq, List.toFinset_append,
          toFinset_pointerList]
    · rw [← List.toFinset_card_of_nodup hmaps'.nodup_pointerList, toFinset_pointerList]
      exact Linked.card_eq hmaps' hmax
  · subst happend
    obtain ⟨hnodup₁, -, -⟩ := List.nodup_append'.1 hnodup
    obtain ⟨r₁, w₁, hrun₁, -⟩ := grow_run hmaps hdevice h₀ (by omega) hcount hnodup₁
      (fun id hid => hids id (List.mem_append_left l₂ hid))
      (fun id hid => hnew id (List.mem_append_left l₂ hid))
    have hfirst := grow_carries l₂ r n₀ l₁ (m - n₀) w r₁ [] w₁ hrun₁
    rw [show n₁ - n₀ = m - n₀ + (n₁ - m) by omega, grow_add, run_bind, hfirst] at hrun
    rw [List.nil_append, show n₀ + (m - n₀) = m by omega] at hrun
    exact ⟨r₁, w₁, hrun₁, hrun⟩

end Growth

/-- A new file takes the first sectors of a device until it is as large as a file can be. -/
theorem grow_balanced_largest : ∃ (r' : InodeRecord) (w' : World SectorArray),
    Balanced (fresh .file) ⟨SectorArray.filled 20000 0, #[]⟩ 0 maxBlocks
      ((List.range' 1 19709).filterMap SectorId.ofIndex?) r' w' := by
  have hsize : LawfulBlockDevice.size (SectorArray.filled 20000 0) = 20000 := by
    simp [LawfulBlockDevice.size, SectorArray.filled]
  have hmem {id : SectorId} (hid : id ∈ (List.range' 1 19709).filterMap SectorId.ofIndex?) :
      id.index < 20000 := by
    obtain ⟨n, hn, hid⟩ := List.mem_filterMap.1 hid
    rw [SectorId.index_of_ofIndex? hid]
    have hlt := (List.mem_range'_1.1 hn).2
    omega
  refine grow_balanced (maps_fresh .file _) (fun p id hid => ?_) (Nat.zero_le _) (Nat.le_refl _) ?_
    ?_ (fun id hid => hsize.symm ▸ hmem hid) fun id _ hid => ?_
  · have hnone := pointerAt_fresh (d := LawfulBlockDevice.image (SectorArray.filled 20000 0))
      .file (.index p)
    cases hnone.symm.trans hid
  · have hlength : ((List.range' 1 19709).filterMap SectorId.ofIndex?).length =
        (List.range' 1 19709).length := by
      refine List.filterMap_length_eq_length.2 fun n hn => Option.isSome_iff_ne_none.2 fun he => ?_
      have hbounds := List.mem_range'_1.1 hn
      have hout := SectorId.ofIndex?_eq_none_iff.1 he
      omega
    rw [hlength, List.length_range']
    rfl
  · refine (List.nodup_range' (s := 1) (n := 19709)).filterMap fun m n id hm hn => ?_
    rw [← SectorId.index_of_ofIndex? hm, SectorId.index_of_ofIndex? hn]
  · obtain ⟨s, hs⟩ := mem_pointers.1 hid
    rw [pointerAt_fresh] at hs
    cases hs

end InodeRecord

end InodeVolume

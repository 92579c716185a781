import InodeVolume.Proofs.Allocation.FirstFit
import InodeVolume.Proofs.Volume.Frugality
import InodeVolume.Proofs.Volume.Logging

/-!
The log is an audit trail. Whoever knows which sectors were marked on a new volume, and applies the
lines of the log on sectors handed out and given back one after the other, knows at the end of every
operation which sectors are marked on the device, and every line applies. That needs callers that
keep to what operations are meant for: a file that is made on a sector of the map replaces the map.
-/
namespace InodeVolume

open Program

/-- What a call makes of the numbers of the sectors in use, if it applies to them. -/
def Call.update? (used : Finset Nat) : Call → Option (Finset Nat)
  | .allocated none => some used
  | .allocated (some id) => if id.index ∈ used then none else some (insert id.index used)
  | .released id => if id.index ∈ used then some (used.erase id.index) else none

/-- What the notices of a log make of them, one after the other. -/
def Notice.replay (log : List Notice) (used : Finset Nat) : Option (Finset Nat) :=
  (log.filterMap Notice.call?).foldlM Call.update? used

section Replay

variable {used used' : Finset Nat} {id : SectorId} {calls : List Call}

theorem Call.update?_allocated (h : id.index ∉ used) :
    Call.update? used (.allocated (some id)) = some (insert id.index used) := if_neg h

theorem Call.update?_released (h : id.index ∈ used) :
    Call.update? used (.released id) = some (used.erase id.index) := if_pos h

/-- Sector zero is never given back. -/
theorem Call.zero_mem_of_update? {c : Call} (h : Call.update? used c = some used')
    (hzero : 0 ∈ used) : 0 ∈ used' := by
  rw [Call.update?.eq_def] at h
  split at h
  · cases h
    exact hzero
  · split at h <;> cases h
    exact Finset.mem_insert_of_mem hzero
  · rename_i id
    split at h <;> cases h
    exact Finset.mem_erase.2 ⟨Nat.ne_of_lt id.index_pos, hzero⟩

theorem Call.zero_mem_of_foldlM (h : calls.foldlM Call.update? used = some used')
    (hzero : 0 ∈ used) : 0 ∈ used' := by
  induction calls generalizing used with
  | nil =>
    cases h
    exact hzero
  | cons c rest ih =>
    rw [List.foldlM_cons] at h
    obtain ⟨next, hnext, hrest⟩ := Option.bind_eq_some_iff.1 h
    exact ih hrest (Call.zero_mem_of_update? hnext hzero)

theorem Call.foldlM_append_single {c : Call} (h : calls.foldlM Call.update? used = some used') :
    (calls ++ [c]).foldlM Call.update? used = Call.update? used' c := by
  rw [List.foldlM_append, h]
  exact bind_pure (Call.update? used' c)

end Replay

namespace FreeMap

variable {m : FreeMap} {size : Nat} {d : Image} {U : Finset SectorId} {used : Finset Nat}

/-- The numbers whose bits are set on a device. -/
def markedOn (m : FreeMap) (d : Image) : Finset Nat :=
  (Finset.range (sectorBits * m.blocks)).filter fun n => m.marks d n = true

theorem Records.markedOn_eq (h : m.Records d used) (hm : m.Lies size) : m.markedOn d = used := by
  ext n
  rw [markedOn, Finset.mem_filter, Finset.mem_range]
  constructor
  · rintro ⟨hn, hmarks⟩
    exact (h.marks_iff hn).1 hmarks
  · intro hn
    exact ⟨Nat.lt_of_lt_of_le (h.lt_capacity hn) hm.capacity_le_bits, h.marks_of_mem hm hn⟩

theorem Tracks.markedOn_eq (h : m.Tracks d U) (hm : m.Fits size) :
    m.markedOn d = m.usedNumbers U := (h.records hm).markedOn_eq hm.lies

/-- A number above the map that is not lent is not used. -/
theorem index_notMem_usedNumbers {id : SectorId} (hid : id ∉ U) (hle : m.reserved ≤ id.index) :
    id.index ∉ m.usedNumbers U := by
  rw [mem_usedNumbers]
  rintro (hlt | ⟨x, hx, he⟩)
  · exact Nat.not_lt.2 hle hlt
  · exact hid (SectorId.index_injective he ▸ hx)

/-- The calls make of the first numbers those that are in use. -/
def watchReplay (m : FreeMap) (first : Finset Nat) : m.Watch where
  holds c _ U := c.foldlM Call.update? first = some (m.usedNumbers U)
  write _ h _ := h
  refused h _ := Call.foldlM_append_single h
  granted h _ hid hle := by
    rw [Call.foldlM_append_single h, usedNumbers_insert]
    exact Call.update?_allocated (index_notMem_usedNumbers hid hle)
  returned h _ hid hle := by
    rw [Call.foldlM_append_single h, usedNumbers_erase hle]
    exact Call.update?_released (index_mem_usedNumbers hid)

end FreeMap

namespace Machine

open LawfulBlockDevice FreeMap

/-- On every run on a volume by operations that `P` allows, the log leads from the sectors that are
marked on the new volume to those that are marked in the end. -/
def ReplaysLogs (P : FileStore → Operation → Prop) : Prop :=
  ∀ (total : UInt32) (δ : Type) [BlockDevice δ] [LawfulBlockDevice δ] (d : δ) (v : Volume)
    (w : World δ) (log : List Notice) (m : Machine δ FreeMap) (st : FileStore),
    total.toNat ≤ size d → (Volume.format total).run ⟨d, #[]⟩ = (.ok (.ok v), w) →
      Logs P v.freeMap ⟨w.device, .over v.freeMap⟩ (.initial v.root) log m st →
        Notice.replay log (v.freeMap.markedOn (image w.device)) =
          some (v.freeMap.markedOn (image m.device))

/-- As long as operations are used as they are meant to be, the log replays the map. -/
theorem replaysLogs_legal : ReplaysLogs FileStore.Legal := by
  intro total δ _ _ d v w log m st hsize hformat h
  obtain ⟨hmap, hm, htracks, hstart⟩ := format_shadow hsize hformat
  obtain ⟨r₀, h₀, hnone⟩ := hstart (watchReplay _ ((Volume.mapOf total).usedNumbers
    ((FileStore.initial v.root).used (image w.device)))) rfl
  rw [hmap] at h h₀ ⊢
  obtain ⟨r, hr, hcalls⟩ := h.shadow h₀
  obtain ⟨htracks', -, hreplay⟩ := hr.holds
  rw [hnone, List.nil_append] at hcalls
  rw [hcalls] at hreplay
  rw [htracks.markedOn_eq hm, htracks'.markedOn_eq hm]
  exact hreplay

/-- The log of a file that was made and is gone again. -/
theorem replay_of_removed : ∃ (v : Volume) (w : World SectorArray) (s : SectorId) (k : HandleId)
    (log : List Notice) (m : Machine SectorArray FreeMap) (st : FileStore),
    (Volume.format 6).run ⟨SectorArray.filled 6 0, #[]⟩ = (.ok (.ok v), w) ∧
      st.opened k = some ⟨s, 1, true, 0⟩ ∧
      Logs FileStore.Legal v.freeMap ⟨w.device, .over v.freeMap⟩ (.initial v.root) log m
        (st.after (.close k) ()) ∧
      Notice.replay log (v.freeMap.markedOn (image w.device)) =
        some (v.freeMap.markedOn (image m.device)) := by
  obtain ⟨v, w, w', s, k, log, m, st, reg, hformat, hlogs, hopened, hclose⟩ := exists_logs_removed
  have hclosed := hlogs.performed (o := .close k) ⟨_, hopened⟩ hclose
  exact ⟨v, w, s, k, _, _, st, hformat, hopened, hclosed,
    replaysLogs_legal 6 SectorArray _ v w _ _ _ (by decide) hformat hclosed⟩

end Machine

section Overwriting

variable {m : FreeMap} {size : Nat} {d : Image} {used : Finset Nat} {s : SectorId}

theorem InodeKind.eq_zero_of_ofWord {w : UInt32} (h : InodeKind.ofWord w = .file) : w = 0 := by
  rw [InodeKind.ofWord] at h
  split at h
  · assumption
  · cases h

/-- Where a map begins with the record of an empty file, sector zero is not marked. -/
theorem BitmapBlock.isUsed_zero_record {t : Sector}
    (hkind : (decode t : InodeRecord).kind = .file) (hsize : (decode t : InodeRecord).size = 0) :
    (decode t : BitmapBlock).isUsed 0 (by decide) = false := by
  have hword₀ : t.word 0 (by decide) = 0 := by
    rw [← Sector.getElem_words, ← wordAt_eq_getElem]
    exact InodeKind.eq_zero_of_ofWord hkind
  have hword₁ : t.word 1 (by decide) = 0 := by
    rw [← Sector.getElem_words, ← wordAt_eq_getElem]
    exact UInt32.toNat_inj.1 hsize
  have hgroup : t.groups[0] = groupOfWords (t.word 0 (by decide)) (t.word 1 (by decide)) := by
    simp [Sector.groups]
  have hbit : (decode t : BitmapBlock).isUsed 0 (by decide) = testBit t.groups[0] 0 := rfl
  rw [hbit, hgroup, hword₀, hword₁]
  rfl

namespace FreeMap

/-- An empty file that is made on a sector in use has its record there. -/
theorem createAt_record (hm : m.Fits size) (h : m.Records d used) (hzero : 0 ∈ used)
    (hs : s.index ∈ used) (hfree : ∃ n, n < m.capacity ∧ n ∉ used) :
    ((Store.createAt s 0 .file).serve m).Ensures (· < size) (fun _ _ => True)
      (fun x d' =>
        x = (.ok (), m) ∧ (recordAt d' s).kind = .file ∧ (recordAt d' s).size = 0) d := by
  have hgather : ((Store.allocateMany (totalSectors (dataBlocks 0))).serve m).Ensures (· < size)
      (fun _ _ => True) (fun x _ => ∃ id : SectorId, x = (.ok [id], m) ∧ id ≠ s ∧ id.index < size)
      d := by
    rw [Store.allocateMany, bind_eq, ensures_serve_bind, ensures_serve_require]
    refine ⟨by decide, ?_⟩
    change ((Store.gather 1 [] 1).serve m).Ensures _ _ _ d
    rw [Store.gather, bind_eq, ensures_serve_bind, ensures_serve_allocate]
    simp only [Allocator.allocate, bind_eq, pure_eq, ensures_bind, ensures_done]
    refine (allocate_records hm.lies h hzero).mono (fun _ hn => hm.lt_of_inMap hn)
      (fun _ _ _ => trivial) ?_
    rintro (_ | id) d₁ hpost
    · obtain ⟨n, hn, hnot⟩ := hfree
      exact absurd (hpost.2 n hn) hnot
    · obtain ⟨hlt, hnew, -⟩ := hpost
      refine ⟨id, rfl, ?_, hlt.trans_le hm.capacity_le⟩
      rintro rfl
      exact hnew hs
  have hblocks : ¬ maxBlocks < dataBlocks 0 := by decide
  rw [Store.createAt]
  dsimp only
  rw [if_neg hblocks, bind_eq, ensures_serve_bind]
  refine hgather.imp ?_
  rintro _ d₁ ⟨id, rfl, hne, hlt⟩
  have hlength : 0 ≤ maxFileSize := Nat.zero_le _
  have hcount : [id].length = totalSectors (dataBlocks 0) := rfl
  have hapart : s ∉ [id].toFinset := by simpa using hne.symm
  have hblank := Store.grow_blank .file d₁ hlength (List.nodup_singleton id) hcount hapart
  simp only [liftM_eq, bind_eq, pure_eq, ensures_serve_bind, ensures_serve_onStore,
    ensures_serve_word, ensures_store, ensures_note, ensures_serve_done]
  refine hblank.mono (fun n hn => ?_) (fun _ _ _ => trivial) ?_
  · obtain ⟨x, hx, rfl⟩ := hn
    obtain rfl : x = id := by simpa using hx
    exact hlt
  · rintro ⟨r, rest⟩ d₂ hr
    have hsector := (h.lt_capacity hs).trans_le hm.capacity_le
    exact ⟨by decide, hsector, trivial, trivial, hr.kind, hr.size⟩

/-- A file that is made where the lowest free sector is one of the map. -/
theorem create_record (hm : m.Fits size) (h : m.Records d used) (hzero : 0 ∈ used)
    (hs : s.index ∉ used) (hlt : s.index < m.capacity) (hbelow : ∀ n, n < s.index → n ∈ used)
    (hfree : ∃ n, n < m.capacity ∧ n ≠ s.index ∧ n ∉ used) :
    ((Store.create 0 .file).serve m).Ensures (· < size) (fun _ _ => True)
      (fun x d' => x = (.ok s, m) ∧ (recordAt d' s).kind = .file ∧ (recordAt d' s).size = 0) d := by
  rw [Store.create, bind_eq, ensures_serve_bind, ensures_serve_allocate]
  simp only [Allocator.allocate, bind_eq, pure_eq, ensures_bind, ensures_done]
  refine (allocate_records hm.lies h hzero).mono (fun _ hn => hm.lt_of_inMap hn)
    (fun _ _ _ => trivial) ?_
  rintro (_ | id) d₁ hpost
  · exact absurd (hpost.2 s.index hlt) hs
  · obtain ⟨-, hnew, hlowest, hrecords⟩ := hpost
    obtain rfl : s = id := by
      refine SectorId.index_injective (Nat.le_antisymm ?_ ?_)
      · exact Nat.le_of_not_lt fun hid => hnew (hbelow _ hid)
      · exact Nat.le_of_not_lt fun hid => hs (hlowest _ hid)
    obtain ⟨n, hn, hne, hnot⟩ := hfree
    rw [ensures_serve_bind]
    refine (createAt_record hm hrecords (Finset.mem_insert_of_mem hzero)
      (Finset.mem_insert_self _ _) ⟨n, hn, fun hmem => ?_⟩).imp ?_
    · exact (Finset.mem_insert.1 hmem).elim hne hnot
    · rintro _ d₂ ⟨rfl, hrecord⟩
      exact ⟨rfl, hrecord⟩

end FreeMap

end Overwriting

namespace Machine

open LawfulBlockDevice FreeMap

/-- What a map serves for while nothing is open. -/
theorem attempt_over {δ : Type} [BlockDevice δ] [LawfulBlockDevice δ] {d : δ} {fm : FreeMap}
    {o : Operation} {p : Program Store o.Reply} {Q : o.Reply → Image → Prop}
    (ho : (o.perform ⟨0⟩ : RegistryM FreeMap o.Reply) = RegistryM.served ⟨0⟩ p)
    (h : (p.serve fm).Ensures (· < size d) (fun _ _ => True) (fun x d' => x.2 = fm ∧ Q x.1 d')
      (image d)) :
    ∃ x w, (⟨d, .over fm⟩ : Machine δ FreeMap).attempt o = (.ok (x, .over fm), w) ∧
      Q x (image w.device) ∧ size w.device = size d := by
  have ht : (Registry.over fm).table? ⟨0⟩ = some ⟨fm, []⟩ := rfl
  obtain ⟨⟨x, _⟩, w, -, hrun, ⟨rfl, hx⟩, hsize, -⟩ := h.run (w := ⟨d, #[]⟩) fun _ hn => hn
  refine ⟨x, w, ?_, hx, hsize⟩
  rw [attempt, ho, RegistryM.served_run ht, run_bind, hrun]
  simp only [Registry.setTable_self ht]
  rfl

/-- Whoever gives the first sector of the map back makes the next file there. Its record marks what
it likes. -/
theorem exists_logs_unmarked {δ : Type} [BlockDevice δ] [LawfulBlockDevice δ] {d : δ}
    {fm : FreeMap} {used : Finset Nat} {s : SectorId} (hm : fm.Fits (size d))
    (h : fm.Records (image d) used) (hzero : 0 ∈ used) (hs : s.index ∈ used)
    (hstart : s.index = fm.start) (hbelow : ∀ n, n < s.index → n ∈ used)
    (hfree : ∃ n, n < fm.capacity ∧ n ∉ used) (st : FileStore) :
    ∃ log m st', Logs (fun _ _ => True) fm ⟨d, .over fm⟩ st log m st' ∧
      0 ∉ fm.markedOn (image m.device) := by
  have hlt := h.lt_capacity hs
  obtain ⟨⟨⟩, w₁, hrun₁, hrecords, hsize⟩ := attempt_over (d := d) (o := .release s)
    (p := Store.release s) (Q := fun _ d' => fm.Records d' (used.erase s.index)) rfl (by
      rw [ensures_serve_release]
      simp only [Allocator.release, bind_eq, pure_eq, ensures_bind, ensures_done]
      exact (release_records hm.lies h hs).mono (fun _ hn => hm.lt_of_inMap hn)
        (fun _ _ _ => trivial) fun _ _ hpost => ⟨trivial, hpost⟩)
  obtain ⟨n, hn, hnot⟩ := hfree
  have hne : n ≠ s.index := fun he => hnot (he ▸ hs)
  obtain ⟨x, w₂, hrun₂, ⟨hkind, hlength⟩, -⟩ := attempt_over (d := w₁.device)
    (o := .create 0 .file) (p := Store.create 0 .file)
    (Q := fun _ d' => (recordAt d' s).kind = .file ∧ (recordAt d' s).size = 0) rfl (by
      refine (create_record (hsize ▸ hm) hrecords ?_ (Finset.notMem_erase _ _) hlt ?_
        ⟨n, hn, hne, fun hmem => hnot (Finset.mem_of_mem_erase hmem)⟩).imp ?_
      · exact Finset.mem_erase.2 ⟨Nat.ne_of_lt s.index_pos, hzero⟩
      · exact fun k hk => Finset.mem_erase.2 ⟨Nat.ne_of_lt hk, hbelow k hk⟩
      · rintro _ d' ⟨rfl, hrecord⟩
        exact ⟨rfl, hrecord⟩)
  refine ⟨_, _, _, (Logs.start.performed trivial hrun₁).performed trivial hrun₂, fun hmem => ?_⟩
  have hmarks := (Finset.mem_filter.1 hmem).2
  rw [recordAt_eq_decode, hstart] at hkind hlength
  have hclear : fm.marks (image w₂.device) 0 = false :=
    BitmapBlock.isUsed_zero_record hkind hlength
  exact Bool.false_ne_true (hclear.symm.trans hmarks)

/-- Sector 1 belongs to the map, and may not be given back. -/
theorem not_replaysLogs_unrestricted : ¬ ReplaysLogs fun _ _ => True := by
  intro hreplays
  have hle : (64 : UInt32).toNat ≤ size (SectorArray.filled 64 0) := Nat.le_refl 64
  obtain ⟨v, w, hformat, hm, hu⟩ := exists_format 64 hle (by decide)
  have hmap : v.freeMap = Volume.mapOf 64 := (format_shadow hle hformat).1
  obtain ⟨a, registered, hc⟩ := hu.consistent
  have htracks : (Volume.mapOf 64).Tracks (image w.device)
    ((FileStore.initial v.root).used (image w.device)) := hc.lends.2
  have hcard : ((Volume.mapOf 64).usedNumbers
      ((FileStore.initial v.root).used (image w.device))).card < (Finset.range 64).card := by
    rw [htracks.card_usedNumbers, hc.laid.card_used_eq_occupied,
      FileStore.occupied_single (s := v.root) rfl rfl, Finset.card_range]
    exact Nat.lt_of_lt_of_eq (show 2 + (1 + totalSectors (dataBlocks 0)) < 64 by decide) rfl
  obtain ⟨n, hn, hnot⟩ := Finset.exists_mem_notMem_of_card_lt_card hcard
  have hone : (1 : Nat) ∈ (Volume.mapOf 64).usedNumbers
    ((FileStore.initial v.root).used (image w.device)) := mem_usedNumbers.2 (Or.inl (by decide))
  have hbelow (k : Nat) (hk : k < 1) : k ∈ (Volume.mapOf 64).usedNumbers
      ((FileStore.initial v.root).used (image w.device)) := by
    obtain rfl := Nat.lt_one_iff.1 hk
    exact hm.zero_mem _
  obtain ⟨log, m, st, hlogs, hzero⟩ := exists_logs_unmarked (s := ⟨1, by decide⟩)
    { hm with capacity_le := hm.capacity_le.trans hu.size_le } (htracks.records hm) (hm.zero_mem _)
    hone rfl hbelow ⟨n, Finset.mem_range.1 hn, hnot⟩ (.initial v.root)
  rw [← hmap] at hlogs hzero
  have hreplay := hreplays 64 SectorArray _ v w log m st hle hformat hlogs
  refine hzero (Call.zero_mem_of_foldlM hreplay ?_)
  rw [hmap, htracks.markedOn_eq hm]
  exact hm.zero_mem _

end Machine

end InodeVolume

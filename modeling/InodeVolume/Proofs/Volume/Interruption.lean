import InodeVolume.Proofs.Volume.Runs

/-!
Operations that are cut short. Creation, extension and writing make files longer, and wherever the
device stops taking their writes, every inode that there was is whole: it has all blocks below the
length on the device, on marked sectors of its own, and each byte is the old one, a zero behind the
old end, or one that was to be written.
-/
namespace InodeVolume

/-- The operations that make files, or make them longer. -/
def Operation.Grows : Operation → Prop
  | create _ _ => True
  | createAt _ _ _ => True
  | extend _ _ => True
  | writeAt _ _ _ => True
  | _ => False

/-- The bytes that an operation puts into a file. -/
def FileStore.puts (st : FileStore) : Operation → SectorId → Nat → Option UInt8
  | .writeAt h offset buffer, s =>
    match st.opened h with
    | some f => if s = f.inode then written offset buffer else fun _ => none
    | none => fun _ => none
  | _, _ => fun _ => none

variable {σ : Type} [Allocator σ] {size : Nat}

/-- All inodes survive, each on marked sectors of its own. -/
def AllSurvive (l : Lender σ size) (st : FileStore) (w : SectorId → Nat → Option UInt8)
    (d : Image) : Prop :=
  ∃ (U : Finset SectorId) (own : SectorId → Finset SectorId), l.marked d U ∧
    (∀ s ∈ st.live, own s ⊆ U ∧
      Survives (fun p => (st.file s).bytes.getD p 0) (st.file s).bytes.size (w s) s (own s) d) ∧
    ∀ s ∈ st.live, ∀ t ∈ st.live, s ≠ t → Disjoint (own s) (own t)

/-- A write after which all inodes survive, and which makes none shorter. -/
def SurvivingStep (l : Lender σ size) (st : FileStore) (w : SectorId → Nat → Option UInt8)
    (d₁ d₂ : Image) : Prop :=
  AllSurvive l st w d₂ ∧ ∀ s ∈ st.live, (recordAt d₁ s).size ≤ (recordAt d₂ s).size

variable {l : Lender σ size} {st : FileStore} {w : SectorId → Nat → Option UInt8}
  {d d₁ d₂ : Image} {s : SectorId} {f : File}

theorem Represents.survives (h : Represents d s f) (w : Nat → Option UInt8) :
    Survives (fun p => f.bytes.getD p 0) f.bytes.size w s (footprint d s) d := by
  have hr : Reached (fun p => f.bytes.getD p 0) f.bytes.size w d (recordAt d s) :=
    ⟨Nat.le_of_eq h.size.symm, fun p => Or.inl (h.byte p)⟩
  exact h.stored.survives hr (Finset.subset_insert _ _)

namespace Laid

/-- An inode whose sectors are as they were survives. -/
theorem survives_of_agree (h : Laid d st) (hs : s ∈ st.live) (hd : Agree (footprint d s) d d₂)
    (w : Nat → Option UInt8) :
    Survives (fun p => (st.file s).bytes.getD p 0) (st.file s).bytes.size w s (footprint d s)
      d₂ := by
  have hsurvives := ((h.represents hs).congr hd).survives w
  rwa [(h.represents hs).footprint_congr hd] at hsurvives

theorem allSurvive_of_agree (h : Laid d st) {U : Finset SectorId}
    (hU : st.live.biUnion (footprint d) ⊆ U) (hd : Agree (st.live.biUnion (footprint d)) d d₂)
    (hm : l.marked d₂ U) : AllSurvive l st w d₂ := by
  have hsub {s : SectorId} (hs : s ∈ st.live) : footprint d s ⊆ st.live.biUnion (footprint d) :=
    Finset.subset_biUnion_of_mem _ hs
  refine ⟨U, footprint d, hm, fun s hs => ⟨(hsub hs).trans hU, ?_⟩,
    fun s hs t ht => h.disjoint hs ht⟩
  exact h.survives_of_agree hs (hd.mono (hsub hs)) _

theorem spares_step (h : Laid d st) {R : Finset SectorId}
    (hR : st.live.biUnion (footprint d) ⊆ R) (h₁ : Agree R d d₁) (h₂ : Spares l R d d₂) :
    SurvivingStep l st w d₁ d₂ := by
  obtain ⟨h₂, F, hm⟩ := h₂
  refine ⟨h.allSurvive_of_agree (hR.trans Finset.subset_union_right) (h₂.mono hR) hm,
    fun s hs => ?_⟩
  have hsub : footprint d s ⊆ R := (Finset.subset_biUnion_of_mem _ hs).trans hR
  rw [recordAt_of_agree (h₁.mono hsub), recordAt_of_agree (h₂.mono hsub)]

theorem advances_step (h : Laid d st) (hs : s ∈ st.live) (h₁ : Agree (st.others d s) d d₁)
    (h₂ : Advances l st s (w s) d d₁ d₂) : SurvivingStep l st w d₁ d₂ := by
  obtain ⟨F, hF, ⟨hsurvives, hle⟩, h₂, hm⟩ := h₂
  have hsub {t : SectorId} (ht : t ∈ st.live) (hne : t ≠ s) : footprint d t ⊆ st.others d s :=
    FileStore.footprint_subset_others ht hne
  refine ⟨⟨F ∪ st.others d s, Function.update (footprint d) s F, hm, fun t ht => ?_,
    fun t ht u hu htu => ?_⟩, fun t ht => ?_⟩
  · by_cases hne : t = s
    · subst hne
      rw [Function.update_self]
      exact ⟨Finset.subset_union_left, hsurvives⟩
    · rw [Function.update_of_ne hne]
      exact ⟨(hsub ht hne).trans Finset.subset_union_right,
        h.survives_of_agree ht (h₂.mono (hsub ht hne)) _⟩
  · by_cases hts : t = s
    · subst hts
      rw [Function.update_self, Function.update_of_ne (Ne.symm htu)]
      exact hF.mono_right (hsub hu (Ne.symm htu))
    · rw [Function.update_of_ne hts]
      by_cases hus : u = s
      · subst hus
        rw [Function.update_self]
        exact (hF.mono_right (hsub ht hts)).symm
      · rw [Function.update_of_ne hus]
        exact h.disjoint ht hu htu
  · by_cases hne : t = s
    · subst hne
      exact hle
    · rw [recordAt_of_agree (h₁.mono (hsub ht hne)), recordAt_of_agree (h₂.mono (hsub ht hne))]

end Laid

namespace FileStore

variable {o : Operation}

theorem puts_writeAt {h : HandleId} {g : OpenFile} (hg : st.opened h = some g) (offset : Nat)
    (buffer : Bytes) : st.puts (.writeAt h offset buffer) g.inode = written offset buffer := by
  simp [puts, hg]

/-- Nothing that grows takes an inode away. -/
theorem live_subset_after (ho : o.Grows) (x : o.Reply) : st.live ⊆ (st.after o x).live := by
  cases o with
  | create length kind =>
    cases x with
    | error e => exact Finset.Subset.refl _
    | ok s => exact Finset.subset_insert _ _
  | createAt s length kind =>
    cases x with
    | error e => exact Finset.Subset.refl _
    | ok u => exact Finset.subset_insert _ _
  | extend h target =>
    obtain ⟨file, hafter⟩ := st.exists_after_extend_eq h target x
    rw [hafter]
  | writeAt h offset buffer =>
    obtain ⟨file, hafter⟩ := st.exists_after_writeAt_eq h offset buffer x
    rw [hafter]
  | _ => exact ho.elim

end FileStore

namespace Serving

open Program

variable {a : σ} {registered : List HandleId} {reg : Registry σ} {o : Operation}

/-- Every write of an operation that grows is safe for all inodes. -/
theorem grows_ensures (hc : Serving l a registered d reg st) (ho : o.Grows) (hlegal : st.Legal o) :
    ((o.perform ⟨0⟩).run reg).Ensures (· < size) (SurvivingStep l st (st.puts o))
      (Answered l st o) d := by
  have spared {R : Finset SectorId} (hR : st.live.biUnion (footprint d) ⊆ R)
      (h : ((o.perform ⟨0⟩).run reg).Ensures (· < size) (fun _ => Spares l R d)
        (Answered l st o) d) :
      ((o.perform ⟨0⟩).run reg).Ensures (· < size) (SurvivingStep l st (st.puts o))
        (Answered l st o) d :=
    (h.both (I := Agree R d) (fun _ _ hg => hg.1) (agree_refl R d)).mono (fun _ => id)
      (fun _ _ hg => hc.laid.spares_step hR hg.1 hg.2) fun _ _ => id
  have advanced {s : SectorId} (hs : s ∈ st.live)
      (h : ((o.perform ⟨0⟩).run reg).Ensures (· < size) (Advances l st s (st.puts o s) d)
        (Answered l st o) d) :
      ((o.perform ⟨0⟩).run reg).Ensures (· < size) (SurvivingStep l st (st.puts o))
        (Answered l st o) d :=
    (h.both (I := Agree (st.others d s) d) (fun _ _ ⟨_, _, _, hd, _⟩ => hd)
      (agree_refl _ d)).mono (fun _ => id) (fun _ _ hg => hc.laid.advances_step hs hg.1 hg.2)
      fun _ _ => id
  cases o with
  | create length kind => exact spared Finset.subset_union_right (hc.create_ensures length kind)
  | createAt s length kind =>
    exact spared Finset.subset_union_right (hc.createAt_ensures hlegal length kind)
  | extend h target =>
    obtain ⟨g, hg⟩ := hlegal
    exact advanced (hc.live hg) (hc.extend_ensures hg target)
  | writeAt h offset buffer =>
    obtain ⟨⟨g, hg⟩, hoffset⟩ := hlegal
    refine advanced (hc.live hg) ?_
    rw [FileStore.puts_writeAt hg]
    exact hc.writeAt_ensures hg hoffset buffer
  | _ => exact ho.elim

end Serving

/-- All inodes of a store are whole on a device on which an operation has been cut short, and no
longer than the operation would have made them. -/
structure Intact (m : FreeMap) (d : Image) (st st' : FileStore)
    (w : SectorId → Nat → Option UInt8) : Prop where
  valid {s : SectorId} : s ∈ st.live → (recordAt d s).isValid = true
  size_ge {s : SectorId} : s ∈ st.live → (st.file s).bytes.size ≤ (recordAt d s).size
  size_le {s : SectorId} : s ∈ st.live → (recordAt d s).size ≤ (st'.file s).bytes.size
  mapped {s : SectorId} {i : Nat} : s ∈ st.live → i < dataBlocks (recordAt d s).size →
    ∃ id, (recordAt d s).blockAt d i = some id ∧ m.marks d id.index = true
  separate {s t : SectorId} {i j : Nat} {id : SectorId} : s ∈ st.live → t ∈ st.live →
    i < dataBlocks (recordAt d s).size → j < dataBlocks (recordAt d t).size →
    (recordAt d s).blockAt d i = some id → (recordAt d t).blockAt d j = some id → s = t ∧ i = j
  byte {s : SectorId} {p : Nat} : s ∈ st.live → p < (recordAt d s).size →
    (recordAt d s).byteAt d p = (st.file s).bytes.getD p 0 ∨
      w s p = some ((recordAt d s).byteAt d p)

theorem Intact.of_survive {m : FreeMap} {hm : m.Fits size} {st' : FileStore}
    (h : AllSurvive (FreeMap.lender hm) st w d)
    (hle : ∀ s ∈ st.live, (recordAt d s).size ≤ (st'.file s).bytes.size) : Intact m d st st' w := by
  obtain ⟨U, own, hmarked, hsurvives, hdisjoint⟩ := h
  have hmapped {s : SectorId} {i : Nat} (hs : s ∈ st.live)
      (hi : i < dataBlocks (recordAt d s).size) :
      ∃ id ∈ own s, (recordAt d s).blockAt d i = some id := (hsurvives s hs).2.mapped i hi
  refine ⟨fun hs => (hsurvives _ hs).2.valid, fun hs => (hsurvives _ hs).2.size_ge,
    fun hs => hle _ hs, fun {s i} hs hi => ?_, fun {s t i j id} hs ht hi hj hid hjd => ?_,
    fun hs hp => (hsurvives _ hs).2.byte _ hp⟩
  · obtain ⟨id, hid, hat⟩ := hmapped hs hi
    exact ⟨id, hat, hmarked id ((hsurvives s hs).1 hid)⟩
  · obtain ⟨x, hx, hxi⟩ := hmapped hs hi
    obtain ⟨y, hy, hyj⟩ := hmapped ht hj
    obtain rfl : x = id := Option.some.inj (hxi.symm.trans hid)
    obtain rfl : y = x := Option.some.inj (hyj.symm.trans hjd)
    by_cases hst : s = t
    · subst hst
      exact ⟨rfl, (hsurvives s hs).2.injective hi hj hid hjd⟩
    · exact absurd hy ((Finset.disjoint_left.1 (hdisjoint s hs t ht hst)) hx)

namespace Machine

open Program LawfulBlockDevice

variable {δ : Type} [BlockDevice δ] [LawfulBlockDevice δ] {total : UInt32} {m : Machine δ FreeMap}
  {o : Operation}

/-- However many of its writes reach the device, an operation that grows leaves all inodes whole. -/
theorem OnVolume.intact (h : OnVolume total m st) (ho : o.Grows) (hlegal : st.Legal o) :
    ∃ x reg w, m.attempt o = (.ok (x, reg), w) ∧ w.device = replay m.device w.writes ∧
      ∀ k, Intact (Volume.mapOf total) (image (replay m.device (w.writes.take k))) st
        (st.after o x) (st.puts o) := by
  obtain ⟨hm, hinUse⟩ := h.inUse
  obtain ⟨a, registered, hc⟩ := hinUse.consistent
  obtain ⟨⟨x, reg⟩, w, writes, hrun, ⟨-, hcons⟩, hsize, hwrites, hdevice, hbound, hgranted⟩ :=
    (hc.grows_ensures ho hlegal).run (w := ⟨m.device, #[]⟩) fun k hk =>
      Nat.lt_of_lt_of_le hk hinUse.size_le
  obtain rfl : w.writes = writes := hwrites
  refine ⟨x, reg, w, hrun, hdevice, fun k => ?_⟩
  have hall : image w.device = (image m.device).replay w.writes := by
    rw [hdevice]
    exact (image_replay hbound).1
  have hcut : image (replay m.device (w.writes.take k)) =
      (image m.device).replay (w.writes.take k) :=
    (image_replay fun v hv => hbound v (List.mem_of_mem_take hv)).1
  have hstart : AllSurvive (FreeMap.lender hm) st (st.puts o) (image m.device) :=
    hc.laid.allSurvive_of_agree Finset.subset_union_right (agree_refl _ _)
      ((FreeMap.lender hm).marked_of_lends hc.lends)
  obtain ⟨_, _, hc'⟩ := hcons
  rw [hcut]
  refine Intact.of_survive (hgranted.holds (fun _ _ hg => hg.1) hstart k) fun s hs => ?_
  rw [← (hc'.laid.represents (FileStore.live_subset_after ho x hs)).size, hall]
  exact hgranted.measure_le (f := fun d => (recordAt d s).size) (fun _ _ hg => hg.2 s hs) k

/-- A write far behind the end of the root directory, for which it has to grow. -/
theorem intact_root_directory : ∃ (m : Machine SectorArray FreeMap) (st : FileStore)
    (h : HandleId), OnVolume 100 m st ∧ st.Legal (.writeAt h 5000 #[104, 105]) ∧
      ∃ x reg w, m.attempt (.writeAt h 5000 #[104, 105]) = (.ok (x, reg), w) ∧
        w.device = replay m.device w.writes ∧
        ∀ k, Intact (Volume.mapOf 100) (image (replay m.device (w.writes.take k))) st
          (st.after (.writeAt h 5000 #[104, 105]) x) (st.puts (.writeAt h 5000 #[104, 105])) := by
  have hsize : size (SectorArray.filled 100 7) = 100 := Array.size_replicate
  obtain ⟨m, root, h, hm⟩ := exists_onVolume_opened 100
    (d := SectorArray.filled 100 7) (Nat.le_of_eq hsize.symm) (by decide)
  have hf := (FileStore.initial root).opened_setOpened_self h (some ⟨root, 1, false, 0⟩)
  have hlegal : ((FileStore.initial root).setOpened h (some ⟨root, 1, false, 0⟩)).Legal
      (.writeAt h 5000 #[104, 105]) := ⟨⟨_, hf⟩, by decide⟩
  exact ⟨m, _, h, hm, hlegal, hm.intact trivial hlegal⟩

end Machine

end InodeVolume

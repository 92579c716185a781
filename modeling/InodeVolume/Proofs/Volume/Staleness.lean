import InodeVolume.Proofs.FileStore.Knowledge
import InodeVolume.Proofs.Registry.Sharing
import InodeVolume.Proofs.Volume.Alike
import InodeVolume.Proofs.Volume.Frugality

/-!
What a device held before it was formatted never shows. Formatting reads only what it has written,
and operations that keep to their contracts read only what the volume has written; so a run goes the
same way on every device. It is not so for an inode that is opened after it is gone: its sectors may
be those of another file by then, and what is in them is for the users of that file to say.
-/
namespace InodeVolume

namespace FreeMap

open Program

variable {m : FreeMap} {size : Nat} {d : Image} {K : Set Nat}

/-- The whole map is written before any of it is read. -/
theorem reset_informed (hm : m.Fits size) :
    (m.reset m.reserved).Informed (fun _ _ K' => ∀ n, m.InMap n → n ∈ K') d K := by
  have hbits := hm.capacity_le_bits
  have hreserved := hm.reserved_le
  rw [reset, bind_eq, informed_bind]
  refine informed_forRange (I := fun i L => ∀ j, j < i → m.start + j ∈ L) (fun i e L _ _ hL => ?_)
    (fun j hj => absurd hj (Nat.not_lt_zero j)) fun d₁ K₁ hcleared => ?_
  · simp only [block, bind_eq, informed_bind, informed_getOrBreach, informed_store]
    intro place hplace j hj
    rw [SectorId.index_of_ofIndex? hplace]
    rcases Nat.lt_succ_iff_lt_or_eq.1 hj with hlt | rfl
    · exact Set.mem_insert_of_mem _ (hL j hlt)
    · exact Set.mem_insert _ L
  · refine informed_forRange (I := fun _ L => ∀ n, m.InMap n → n ∈ L) (fun k e L _ hk hL => ?_)
      (fun n hn => ?_) fun _ _ hL => hL
    · simp only [block, Disk.update, bind_eq, informed_bind, informed_getOrBreach, informed_load,
        informed_store]
      intro place hplace
      have hi : k / sectorBits < m.blocks := by
        simp only [sectorBits] at *
        omega
      rw [SectorId.index_of_ofIndex? hplace]
      exact ⟨hL _ (inMap_start_add hi), fun n hn => Set.mem_insert_of_mem _ (hL n hn)⟩
    · obtain ⟨hle, hlt⟩ := hn
      rw [reserved] at hlt
      have hknown := hcleared (n - m.start) (by omega)
      rwa [Nat.add_sub_cancel' hle] at hknown

end FreeMap

namespace Volume

open Program

variable {total : UInt32} {d : Image} {K : Set Nat}

/-- All that a new volume reads was written when it was made. -/
theorem format_informed : (format total).Informed
    (fun x d' K' => ∀ v, x = .ok v → KnownStore (mapOf total) d' (.initial v.root) K') d K := by
  rw [format]
  by_cases hspace : total.toNat < 1 + FreeMap.blocksFor total.toNat + 2
  · rw [if_pos hspace]
    exact fun v hv => by cases hv
  · have hfits : (mapOf total).Fits total.toNat := fits_mapOf (Nat.le_refl _) (by omega)
    have hreserved := reserved_mapOf total
    rw [if_neg hspace, ← mapOf, ← hreserved]
    simp only [bind_eq, informed_bind]
    refine ((FreeMap.reset_informed hfits).and (FreeMap.reset_ensures hfits)).imp ?_
    rintro _ d₁ K₁ ⟨hmap, htracks₁⟩
    refine ((FreeMap.allocate_exact hfits htracks₁).informed hmap).imp ?_
    rintro (_ | root) d₂ K₂ ⟨⟨-, hpost⟩, rfl⟩
    · exact fun v hv => by cases hv
    · obtain ⟨-, -, htracks₂⟩ := hpost
      obtain ⟨room, hroom⟩ : ∃ room, (mapOf total).reserved + (∅ : Finset SectorId).card + room =
          (mapOf total).capacity := Nat.le.dest hfits.reserved_le
      simp only [informed_bind]
      refine ((FreeMap.serve_informed hfits (F := {root}) (R := ∅) Store.createAt_secures
        Store.createAt_provided (Finset.disjoint_empty_right _) htracks₂ hroom hmap).grows).imp ?_
      rintro ⟨e | ⟨⟩, m'⟩ d₃ K₃ ⟨⟨hm', F', -, -, hs, hq⟩, hK₃⟩
      · exact fun v hv => by cases hv
      · obtain ⟨-, hknown⟩ := hq
        obtain ⟨P, rfl, hblank⟩ := hs
        obtain ⟨hrep, hfoot⟩ := hblank.represents
        simp only [informed_bind, informed_word, informed_writeSector, informed_note, pure_eq,
          informed_done]
        rintro - v hv
        cases hv
        refine ⟨fun n hn => Set.mem_insert_of_mem _ (hK₃ (hmap n hn)), fun {s} hs => ?_⟩
        obtain rfl := Finset.mem_singleton.1 hs
        -- The super block is none of the sectors of the root directory.
        rw [hrep.footprint_congr fun id _ =>
          Function.update_of_ne (Nat.ne_of_gt id.index_pos) _ _, hfoot]
        exact hknown.mono (Set.subset_insert _ _)

end Volume

/-- What callers keep to. It may depend on the root directory, on what was done before, the latest
first, and on the store. -/
abbrev Contract := SectorId → History → FileStore → Operation → Prop

namespace Machine

open Program LawfulBlockDevice

variable {δ δ' : Type} [BlockDevice δ] [BlockDevice δ']

/-- A device is formatted and operations follow that keep to a contract. `history` is what was done
with its replies, the latest first, and `written` the sectors that were written. -/
inductive Trace (contract : Contract) (total : UInt32) (d : δ) (root : SectorId) :
    History → Set Nat → Machine δ FreeMap → FileStore → Prop
  | formatted {v : Volume} {w : World δ} : (Volume.format total).run ⟨d, #[]⟩ = (.ok (.ok v), w) →
    v.root = root →
      Trace contract total d root [] {n | ∃ s, (n, s) ∈ w.writes} ⟨w.device, .over v.freeMap⟩
        (.initial root)
  | step {history : History} {written : Set Nat} {m : Machine δ FreeMap} {st : FileStore}
    {o : Operation} {x : o.Reply} {reg : Registry FreeMap} {w : World δ} :
    Trace contract total d root history written m st → contract root history st o →
    m.attempt o = (.ok (x, reg), w) →
      Trace contract total d root (⟨o, x⟩ :: history) (written ∪ {n | ∃ s, (n, s) ∈ w.writes})
        ⟨w.device, reg⟩ (st.after o x)

variable {contract : Contract} {total : UInt32} {d : δ} {root : SectorId} {history : History}
  {written : Set Nat} {m m' : Machine δ FreeMap} {st : FileStore} {o : Operation} {x : o.Reply}

theorem Trace.replied (ht : Trace contract total d root history written m st)
    (hc : contract root history st o) (hx : m.Replies o x m') :
    ∃ written', Trace contract total d root (⟨o, x⟩ :: history) written' m' (st.after o x) := by
  obtain ⟨journal, hx⟩ := hx
  exact ⟨_, ht.step hc hx⟩

theorem Trace.last (ht : Trace contract total d root (⟨o, x⟩ :: history) written m st) :
    ∃ written₀ m₀ st₀ reg w, Trace contract total d root history written₀ m₀ st₀ ∧
      m₀.attempt o = (.ok (x, reg), w) ∧ m = ⟨w.device, reg⟩ := by
  cases ht with
  | step ht₀ _ hx => exact ⟨_, _, _, _, _, ht₀, hx, rfl⟩

variable [LawfulBlockDevice δ] [LawfulBlockDevice δ']

/-- Neither an operation, nor the number of free sectors, nor a look at the sectors of `written`
tells one machine from the other. -/
structure Mirrors (total : UInt32) (allowed : Operation → Prop) (written : Set Nat)
    (m : Machine δ FreeMap) (m' : Machine δ' FreeMap) : Prop where
  attempt_eq (o : Operation) : allowed o → (m'.attempt o).1 = (m.attempt o).1
  freeCount_eq : ∃ free w w',
    (Volume.mapOf total).freeCount.run ⟨m.device, #[]⟩ = (.ok free, w) ∧ w.device = m.device ∧
    (Volume.mapOf total).freeCount.run ⟨m'.device, #[]⟩ = (.ok free, w') ∧ w'.device = m'.device
  image_eq (n : Nat) : n ∈ written → image m'.device n = image m.device n

end Machine

/-- What devices held before makes no difference to those who keep to a contract. -/
def Contract.IgnoresContents (contract : Contract) : Prop :=
  ∀ (total : UInt32) {δ δ' : Type} [BlockDevice δ] [LawfulBlockDevice δ] [BlockDevice δ']
    [LawfulBlockDevice δ'] (d : δ) (d' : δ'),
    total.toNat ≤ LawfulBlockDevice.size d → total.toNat ≤ LawfulBlockDevice.size d' →
      ((Volume.format total).run ⟨d', #[]⟩).1 = ((Volume.format total).run ⟨d, #[]⟩).1 ∧
      ∀ {root : SectorId} {history : History} {written : Set Nat} {m : Machine δ FreeMap}
        {st : FileStore}, Machine.Trace contract total d root history written m st →
        ∃ m' : Machine δ' FreeMap, Machine.Trace contract total d' root history written m' st ∧
          Machine.Mirrors total (contract root history st) written m m'

/-- Operations are used as they are meant to be: only what there is, and is open or held. -/
def Contract.legal : Contract := fun _ _ st o => st.Legal o

namespace Machine

open Program LawfulBlockDevice

variable {δ δ' : Type} [BlockDevice δ] [LawfulBlockDevice δ] [BlockDevice δ'] [LawfulBlockDevice δ']
  {total : UInt32} {d : δ} {d' : δ'} {root : SectorId} {history : History} {written : Set Nat}
  {m : Machine δ FreeMap} {st : FileStore} {o : Operation}

theorem Trace.onVolume (hd : total.toNat ≤ size d)
    (h : Trace .legal total d root history written m st) : OnVolume total m st := by
  induction h with
  | formatted hrun hroot =>
    subst hroot
    exact ⟨d, _, _, hd, hrun, .refl⟩
  | step _ hlegal hx ih => exact ih.step hlegal ⟨_, hx⟩

/-- A trace goes on with every legal operation that the contract allows. -/
theorem Trace.continues {contract : Contract}
    (ht : Trace contract total d root history written m st) (hv : OnVolume total m st)
    (hc : contract root history st o) (hlegal : st.Legal o) (hrefusal : st.refusal o = none) :
    ∃ (x : o.Reply) (m' : Machine δ FreeMap) (written' : Set Nat),
      Trace contract total d root (⟨o, x⟩ :: history) written' m' (st.after o x) ∧
      OnVolume total m' (st.after o x) ∧ st.Admits o x := by
  obtain ⟨hm, hu⟩ := hv.inUse
  obtain ⟨x, m', hx, hadmits, -⟩ := hu.attempt_ok hlegal hrefusal
  obtain ⟨written', ht'⟩ := ht.replied hc hx
  exact ⟨x, m', written', ht', hv.step hlegal hx, hadmits⟩

/-- What went the same way has written the same. -/
theorem writes_eq {K : Set Nat} {w : World δ} {w' : World δ'} (h : Indistinct K w w') :
    w'.writes = w.writes := by
  simp only [World.writes, h.journal_eq]

/-- The twin of a machine on another device, and what is known of both. -/
structure Twin (total : UInt32) (st : FileStore) (written : Set Nat) (m : Machine δ FreeMap)
    (m' : Machine δ' FreeMap) (K : Set Nat) : Prop where
  known : KnownStore (Volume.mapOf total) (image m.device) st K
  written_subset : written ⊆ K
  image_eq (n : Nat) : n ∈ K → image m'.device n = image m.device n
  registry_eq : m'.registry = m.registry

/-- Twins go the same way in every legal operation. -/
theorem Twin.attempt {m' : Machine δ' FreeMap} {K : Set Nat} (ht : Twin total st written m m' K)
    (h : OnVolume total m st) (h' : OnVolume total m' st) (hlegal : st.Legal o)
    (hrefusal : st.refusal o = none) : ∃ x reg w w' K', m.attempt o = (.ok (x, reg), w) ∧
      m'.attempt o = (.ok (x, reg), w') ∧ w'.writes = w.writes ∧
      Twin total (st.after o x) (written ∪ {n | ∃ s, (n, s) ∈ w.writes}) ⟨w.device, reg⟩
        ⟨w'.device, reg⟩ K' := by
  obtain ⟨hm, hu⟩ := h.inUse
  obtain ⟨_, hu'⟩ := h'.inUse
  obtain ⟨a, registered, hc⟩ := hu.consistent
  obtain ⟨⟨x, reg⟩, w, w', K', hrun, hrun', hknown, hw, hlearnt, -⟩ :=
    (hc.perform_informed ht.known hlegal).run_indistinct (w := ⟨m.device, #[]⟩)
      (u := ⟨m'.device, #[]⟩) (hc.perform_ensures hlegal hrefusal)
      (fun k hk => Nat.lt_of_lt_of_le hk hu.size_le) (fun k hk => Nat.lt_of_lt_of_le hk hu'.size_le)
      ⟨ht.image_eq, rfl⟩
  refine ⟨x, reg, w, w', K', hrun, ?_, writes_eq hw, hknown, ?_, hw.image_eq, rfl⟩
  · rw [Machine.attempt, ht.registry_eq]
    exact hrun'
  · rintro n (hn | ⟨s, hs⟩)
    · exact hlearnt.subset (ht.written_subset hn)
    · exact (hlearnt.written _ hs).resolve_left List.not_mem_nil

/-- Both devices are formatted in the same way. -/
theorem format_twin (hd : total.toNat ≤ size d) (hd' : total.toNat ≤ size d') :
    ∃ x w w', (Volume.format total).run ⟨d, #[]⟩ = (.ok x, w) ∧
      (Volume.format total).run ⟨d', #[]⟩ = (.ok x, w') ∧ w'.writes = w.writes ∧
      ∀ v, x = .ok v → ∃ K, Twin total (.initial v.root) {n | ∃ s, (n, s) ∈ w.writes}
        ⟨w.device, .over v.freeMap⟩ ⟨w'.device, .over v.freeMap⟩ K := by
  obtain ⟨x, w, w', K, hrun, hrun', hknown, hw, hlearnt, -⟩ :=
    (Volume.format_informed (K := ∅)).run_indistinct (w := ⟨d, #[]⟩) (u := ⟨d', #[]⟩)
      (Volume.format_ensures (Nat.le_refl total.toNat))
      (fun k hk => Nat.lt_of_lt_of_le hk hd) (fun k hk => Nat.lt_of_lt_of_le hk hd')
      ⟨fun _ hn => hn.elim, rfl⟩
  refine ⟨x, w, w', hrun, hrun', writes_eq hw, fun v hv => ⟨K, hknown v hv, ?_, hw.image_eq, rfl⟩⟩
  rintro n ⟨s, hs⟩
  exact (hlearnt.written _ hs).resolve_left List.not_mem_nil

/-- A run on one device is a run on the other. -/
theorem Trace.twin (hd : total.toNat ≤ size d) (hd' : total.toNat ≤ size d')
    (h : Trace .legal total d root history written m st) :
    ∃ (m' : Machine δ' FreeMap) (K : Set Nat), Trace .legal total d' root history written m' st ∧
      Twin total st written m m' K := by
  induction h with
  | formatted hrun hroot =>
    subst hroot
    obtain ⟨x, w, w', hrun₁, hrun', hwrites, htwin⟩ := format_twin hd hd'
    rw [hrun] at hrun₁
    cases hrun₁
    obtain ⟨K, ht⟩ := htwin _ rfl
    exact ⟨_, K, hwrites ▸ .formatted hrun' rfl, ht⟩
  | step htrace hlegal hx ih =>
    obtain ⟨m', K, htrace', ht⟩ := ih
    have h := htrace.onVolume hd
    obtain ⟨hm, hu⟩ := h.inUse
    have hreplies : Replies _ _ _ ⟨_, _⟩ := ⟨_, hx⟩
    have hrefusal := hu.refusal_eq_none hlegal hreplies
    obtain ⟨y, reg, w, w', K', hrun, hrun', hwrites, ht'⟩ :=
      ht.attempt h (htrace'.onVolume hd') hlegal hrefusal
    rw [hx] at hrun
    cases hrun
    exact ⟨_, K', hwrites ▸ htrace'.step hlegal hrun', ht'⟩

/-- Nothing tells twins apart. -/
theorem Twin.mirrors {m' : Machine δ' FreeMap} {K : Set Nat} (ht : Twin total st written m m' K)
    (h : OnVolume total m st) (h' : OnVolume total m' st) :
    Mirrors total st.Legal written m m' where
  attempt_eq o hlegal := by
    cases hrefusal : st.refusal o with
    | some b =>
      rw [h.inUse.choose_spec.attempt_refused hlegal hrefusal,
        h'.inUse.choose_spec.attempt_refused hlegal hrefusal]
    | none =>
      obtain ⟨x, reg, w, w', K', hrun, hrun', -⟩ := ht.attempt h h' hlegal hrefusal
      rw [hrun, hrun']
  freeCount_eq := by
    obtain ⟨free, w, hrun, hdevice, -⟩ := h.freeCount_run
    obtain ⟨free', w', hrun', hdevice', -⟩ := h'.freeCount_run
    have hsum := h.room_eq ⟨w, hrun⟩
    have hsum' := h'.room_eq ⟨w', hrun'⟩
    obtain rfl : free = free' := by omega
    exact ⟨free, w, w', hrun, hdevice, hrun', hdevice'⟩
  image_eq n hn := ht.image_eq n (ht.written_subset hn)

/-- As long as operations are used as they are meant to be, nothing of what a device held before
ever shows. -/
theorem ignoresContents_legal : Contract.legal.IgnoresContents := by
  intro total δ δ' _ _ _ _ d d' hd hd'
  obtain ⟨x, w, w', hrun, hrun', -⟩ := format_twin hd hd'
  refine ⟨by rw [hrun, hrun'], fun h => ?_⟩
  obtain ⟨m', K, h', ht⟩ := h.twin hd hd'
  exact ⟨m', h', ht.mirrors (h.onVolume hd) (h'.onVolume hd')⟩

/-- A file that is made on a device full of sevens reads as zeros, as it does on a device full of
zeros. -/
theorem ignoresContents_reading : ∃ (root s : SectorId) (h : HandleId) (written : Set Nat)
    (m m' : Machine SectorArray FreeMap) (st : FileStore),
    Trace .legal 100 (SectorArray.filled 100 7) root [⟨.readAt h 0 600, Array.replicate 600 0⟩,
      ⟨.openAt s, .ok h⟩, ⟨.create 600 .file, .ok s⟩] written m st ∧
    Trace .legal 100 (SectorArray.filled 100 0) root [⟨.readAt h 0 600, Array.replicate 600 0⟩,
      ⟨.openAt s, .ok h⟩, ⟨.create 600 .file, .ok s⟩] written m' st ∧
    Mirrors 100 st.Legal written m m' := by
  have hd : (100 : UInt32).toNat ≤ size (SectorArray.filled 100 7) := Nat.le_of_eq
    Array.size_replicate.symm
  have hd' : (100 : UInt32).toNat ≤ size (SectorArray.filled 100 0) := Nat.le_of_eq
    Array.size_replicate.symm
  obtain ⟨v, w, hrun, -⟩ := exists_format 100 hd (by decide)
  have ht₀ : Trace .legal 100 (SectorArray.filled 100 7) v.root [] _ _ _ := .formatted hrun rfl
  have hv₀ := ht₀.onVolume hd
  obtain ⟨free, hfree, hsum⟩ := hv₀.countsFree
  rw [FileStore.occupied_initial, show FreeMap.blocksFor (100 : UInt32).toNat = 1 from rfl,
    show (100 : UInt32).toNat = 100 from rfl] at hsum
  obtain rfl : free = 96 := by omega
  obtain ⟨s, m₁, rest, hx₁, -, -⟩ := hv₀.create_exact hfree 600 .file
  obtain ⟨W₁, ht₁⟩ := ht₀.replied (o := .create 600 .file) trivial hx₁
  have hs : s ∈ ((FileStore.initial v.root).after (.create 600 .file) (.ok s)).live :=
    Finset.mem_insert_self s {v.root}
  obtain ⟨_ | h, m₂, W₂, ht₂, hv₂, hadmits⟩ :=
    ht₁.continues (o := .openAt s) (ht₁.onVolume hd) hs hs rfl
  · exact hadmits.elim
  have hopened : (((FileStore.initial v.root).after (.create 600 .file) (.ok s)).after (.openAt s)
    (.ok h)).opened h = some ⟨s, 1, false, 0⟩ := FileStore.opened_setOpened_self _ _ _
  obtain ⟨bytes, m₃, W₃, ht₃, -, hread⟩ :=
    ht₂.continues (o := .readAt h 0 600) hv₂ ⟨⟨_, hopened⟩, by decide⟩ ⟨⟨_, hopened⟩, by decide⟩ rfl
  have hfile : (((FileStore.initial v.root).after (.create 600 .file) (.ok s)).after (.openAt s)
    (.ok h)).fileOf ⟨s, 1, false, 0⟩ = .blank .file 600 := FileStore.file_setFile_self _ s _
  obtain rfl : bytes = Array.replicate 600 0 := by
    rw [hread _ hopened, hfile]
    simp [File.blank]
  obtain ⟨m', ht', hmirrors⟩ := (ignoresContents_legal 100 _ _ hd hd').2 ht₃
  exact ⟨v.root, s, h, W₃, m₃, m', _, ht₃, ht', hmirrors⟩

variable {s : SectorId}

/-- A machine on a volume, of a device that was `d` before: what is behind the end of the volume is
as it was. -/
structure Within (total : UInt32) (d : δ) (m : Machine δ FreeMap) (st : FileStore) : Prop where
  onVolume : OnVolume total m st
  beyond (n : Nat) : total.toNat ≤ n → image m.device n = image d n
  size_eq : size m.device = size d

theorem Within.step (h : Within total d m st) (hlegal : st.Legal o) {x : o.Reply}
    {reg : Registry FreeMap} {w : World δ} (hx : m.attempt o = (.ok (x, reg), w)) :
    st.Admits o x ∧ Within total d ⟨w.device, reg⟩ (st.after o x) := by
  have hreplies : m.Replies o x ⟨w.device, reg⟩ := ⟨w.journal, hx⟩
  obtain ⟨hm, hu⟩ := h.onVolume.inUse
  obtain ⟨hadmits, -⟩ := hu.after hlegal hreplies
  have hrefusal := hu.refusal_eq_none hlegal hreplies
  obtain ⟨a, registered, hc⟩ := hu.consistent
  obtain ⟨⟨-, hframe⟩, hsize⟩ := (hc.perform_ensures hlegal hrefusal).frame.of_run
    (w := ⟨m.device, #[]⟩) (fun k hk => Nat.lt_of_lt_of_le hk hu.size_le) hx
  exact ⟨hadmits, h.onVolume.step hlegal hreplies, fun n hn =>
    (hframe n (Nat.not_lt.2 hn)).trans (h.beyond n hn), hsize.trans h.size_eq⟩

theorem Within.formatted {v : Volume} {w : World δ} (hd : total.toNat ≤ size d)
    (hrun : (Volume.format total).run ⟨d, #[]⟩ = (.ok (.ok v), w)) :
    Within total d ⟨w.device, .over v.freeMap⟩ (.initial v.root) := by
  obtain ⟨⟨-, hframe⟩, hsize⟩ := (Volume.format_ensures (Nat.le_refl total.toNat)).frame.of_run
    (w := ⟨d, #[]⟩) (fun k hk => Nat.lt_of_lt_of_le hk hd) hrun
  exact ⟨⟨d, v, w, hd, hrun, .refl⟩, fun n hn => hframe n (Nat.not_lt.2 hn), hsize⟩

/-- On a full volume that has a single file, every sector behind the map belongs to it. -/
theorem OnVolume.mem_footprint (h : OnVolume total m st) (hlive : st.live = {root})
    (hheld : st.held = ∅)
    (hfull : total.toNat ≤ 1 + FreeMap.blocksFor total.toNat + st.occupied)
    (hs : 1 + FreeMap.blocksFor total.toNat ≤ s.index) (hlt : s.index < total.toNat) :
    s ∈ footprint (image m.device) root := by
  obtain ⟨hm, hu⟩ := h.inUse
  obtain ⟨a, registered, hc⟩ := hu.consistent
  have hused : st.used (image m.device) = footprint (image m.device) root := by
    rw [FileStore.used, hlive, hheld, Finset.singleton_biUnion, Finset.empty_union]
  rw [← hc.laid.card_used_eq_occupied, hused] at hfull
  have htracks := hc.tracks
  rw [hused] at htracks
  rcases htracks.taken_of_full hm hfull hlt with hlow | ⟨t, ht, he⟩
  · exact absurd hlow (Nat.not_lt.2 hs)
  · exact SectorId.index_injective he ▸ ht

theorem OnVolume.index_bounds (h : OnVolume total m st) (hs : s ∈ st.live) :
    1 + FreeMap.blocksFor total.toNat ≤ s.index ∧ s.index < total.toNat := by
  obtain ⟨hm, hu⟩ := h.inUse
  obtain ⟨a, registered, hc⟩ := hu.consistent
  have hused := FileStore.footprint_subset_used hs (self_mem_footprint (image m.device) s)
  exact ⟨hc.tracks.reserved_le hused, hc.tracks.index_lt hused⟩

end Machine

/-- Whatever inode was made, and the root directory, may be opened at any time. -/
def Contract.opensCreated : Contract := fun root history st o =>
  match o with
  | .openAt s => s = root ∨
    ∃ length kind, (⟨.create length kind, .ok s⟩ : Σ o : Operation, o.Reply) ∈ history
  | o => st.Legal o

section Forgery

/-!
An inode is made, opened, removed and closed. The root directory grows until it has taken all
sectors, the one of that inode with them, and what is written to each of them is the record of an
inode with a block behind the end of the volume.
-/

open Program

def strayBlock : SectorId := ⟨6, by decide⟩

def forgedRecord : InodeRecord :=
  { InodeRecord.fresh .file with
    length := 512
    direct := setSlot (Vector.replicate 100 none) 0 (some strayBlock) }

/-- Three sectors, each with the forged record. -/
def forgery : Bytes :=
  Array.ofFn fun i : Fin 1536 => (encode forgedRecord)[i.val % 512]

theorem getD_forgery {i j : Nat} (hi : i < 3) (hj : j < 512) :
    forgery.getD (512 * i + j) 0 = (encode forgedRecord)[j] := by
  have hlt : 512 * i + j < 1536 := by omega
  have hmod : (512 * i + j) % 512 = j := by omega
  simp only [forgery, Array.getD_eq_getD_getElem?, Array.getElem?_ofFn, hlt, dif_pos,
    Option.getD_some, hmod]

theorem size_forgery : forgery.size = 1536 := by simp [forgery]

/-- Who reads the forged inode sees what is behind the end of the volume. -/
theorem readAt_forged {f : OpenInode} (hf : f.record = forgedRecord) (d : Image) :
    (f.readAt 0 1).Ensures (· = 6) (fun _ _ => False) (fun b _ => b = #[(d 6)[0]]) d := by
  have hsize : f.size = 512 := by
    rw [OpenInode.size, hf]
    rfl
  have hblock : f.record.sectorOf 0 = .done (some strayBlock) := by
    rw [hf]
    rfl
  rw [OpenInode.readAt, hsize, if_neg (by decide), bind_eq, ensures_bind, ensures_sum]
  refine ⟨by decide, ?_⟩
  rw [OpenInode.readFrom, dif_pos (by decide), hblock]
  simp only [bind_eq, done_bind, ensures_bind, ensures_readSector]
  refine ⟨rfl, ?_⟩
  rw [OpenInode.readFrom, dif_neg (by decide)]
  refine Array.ext (by simp) fun i hi hi' => ?_
  obtain rfl : i = 0 := by simpa using hi'
  simp
  rfl

namespace FileStore

variable {root s : SectorId} {h r : HandleId}

/-- A new volume on which an inode was made, opened, removed and closed. -/
def vanished (root s : SectorId) (h : HandleId) : FileStore :=
  ((((initial root).after (.create 0 .file) (.ok s)).after (.openAt s) (.ok h)).after
    (.remove h) ()).after (.close h) ()

theorem vanished_eq : vanished root s h = (((((initial root).addFile s (.blank .file 0)).setOpened h
    (some ⟨s, 1, false, 0⟩)).setOpened h (some ⟨s, 1, true, 0⟩)).setOpened h none).dropFile s := by
  have hopened : (((initial root).after (.create 0 .file) (.ok s)).after (.openAt s)
    (.ok h)).opened h = some ⟨s, 1, false, 0⟩ := opened_setOpened_self _ _ _
  refine (closed_eq (opened_remove_self hopened)).trans ?_
  rw [if_pos rfl, if_pos rfl]
  exact congrArg (fun st => (st.setOpened h none).dropFile s) (modifyOpened_eq hopened _)

theorem live_vanished (hne : s ≠ root) : (vanished root s h).live = {root} := by
  rw [vanished_eq]
  exact Finset.erase_insert fun hs => hne (Finset.mem_singleton.1 hs)

theorem opened_vanished (k : HandleId) : (vanished root s h).opened k = none := by
  rw [vanished_eq]
  by_cases hk : k = h
  · rw [hk]
    exact opened_setOpened_self _ _ _
  · exact (opened_setOpened_of_ne _ hk _).trans ((opened_setOpened_of_ne _ hk _).trans
      (opened_setOpened_of_ne _ hk _))

theorem held_vanished : (vanished root s h).held = ∅ := by
  rw [vanished_eq]
  rfl

theorem file_vanished (hne : s ≠ root) : (vanished root s h).file root = .blank .directory 0 := by
  rw [vanished_eq]
  exact file_setFile_of_ne _ hne.symm _

end FileStore

namespace Machine

open Program LawfulBlockDevice

variable {δ : Type} [BlockDevice δ] [LawfulBlockDevice δ] {total : UInt32} {d : δ}
  {root s : SectorId} {h r : HandleId} {history : History} {written : Set Nat}
  {m : Machine δ FreeMap} {st : FileStore} {o : Operation}

/-- What was the sector of an inode is part of the root directory, and holds a forged record. -/
structure Overwritten (d : δ) (root s : SectorId) (m : Machine δ FreeMap) (st : FileStore) :
    Prop where
  within : Within 6 d m st
  index_lt : s.index < 6
  forged : recordAt (image m.device) s = forgedRecord
  closed (h : HandleId) (f : OpenFile) : st.opened h = some f → f.inode ≠ s

/-- What was done. -/
def forgingHistory (root s : SectorId) (h r : HandleId) : History :=
  [⟨.writeAt r 0 forgery, (1536 : Nat)⟩, ⟨.openAt root, .ok r⟩, ⟨.close h, ()⟩, ⟨.remove h, ()⟩,
    ⟨.openAt s, .ok h⟩, ⟨.create 0 .file, .ok s⟩]

/-- The file takes all sectors that there are. -/
theorem Within.overwritten {reg : Registry FreeMap} {w : World δ} (hw : Within 6 d m st)
    (hlive : st.live = {root}) (hheld : st.held = ∅) (hr : st.opened r = some ⟨root, 1, false, 0⟩)
    (honly : ∀ k f, st.opened k = some f → f.inode = root)
    (hblank : st.file root = .blank .directory 0) (hne : s ≠ root) (hlow : 2 ≤ s.index)
    (hlt : s.index < 6)
    (hx : m.attempt (.writeAt r 0 forgery) = (.ok ((1536 : Nat), reg), w)) :
    Overwritten d root s ⟨w.device, reg⟩ (st.after (.writeAt r 0 forgery) (1536 : Nat)) := by
  have hlegal : st.Legal (.writeAt r 0 forgery) := ⟨⟨_, hr⟩, by decide⟩
  obtain ⟨-, hw'⟩ := hw.step hlegal hx
  have hafter : st.after (.writeAt r 0 forgery) (1536 : Nat) =
      st.setBytes root ((File.blank .directory 0).written 0 forgery 1536).bytes := by
    rw [FileStore.after_writeAt hr, FileStore.fileOf, hblank]
  rw [hafter] at hw' ⊢
  obtain ⟨b, hb⟩ : ∃ b, ((File.blank .directory 0).written 0 forgery 1536).bytes = b := ⟨_, rfl⟩
  have hsize : b.size = 1536 := by
    rw [← hb, File.size_written _ _ size_forgery.ge]
    rfl
  have hbyte (i j : Nat) (hi : i < 3) (hj : j < 512) :
      b.getD (512 * i + j) 0 = (encode forgedRecord)[j] := by
    rw [← hb, File.getD_written _ size_forgery.ge, overlaid, if_pos (by omega), Nat.sub_zero,
      getD_forgery hi hj]
  rw [hb] at hw' ⊢
  have hblocks : dataBlocks b.size = 3 := by
    rw [hsize]
    rfl
  have hoccupied : (st.setBytes root b).occupied = 4 := by
    have hsingle : (st.setBytes root b).occupied =
      1 + totalSectors (dataBlocks ((st.setBytes root b).file root).bytes.size) :=
        FileStore.occupied_single hlive hheld
    rw [hsingle, FileStore.bytes_setBytes, hblocks]
    rfl
  have hmem := hw'.onVolume.mem_footprint hlive hheld (by
    rw [hoccupied]
    decide) hlow hlt
  obtain ⟨hm, hu⟩ := hw'.onVolume.inUse
  obtain ⟨a, registered, hc⟩ := hu.consistent
  have hrep := hc.laid.represents (s := root) (hlive ▸ Finset.mem_singleton_self root)
  have hfile : ((st.setBytes root b).file root).bytes = b := FileStore.bytes_setBytes
  obtain ⟨i, hi, hcontent⟩ := hrep.exists_block (by rw [hfile, hblocks]; decide) hmem hne
  rw [hfile] at hi hcontent
  rw [hblocks] at hi
  refine ⟨hw', hlt, ?_, fun k f hf => ?_⟩
  · have hsector : image w.device s.index = encode forgedRecord :=
      Vector.ext fun j hj => (hcontent j hj).trans (hbyte i j hi hj)
    rw [recordAt_eq_decode, hsector, InodeRecord.decode_encode]
  · rw [honly k f hf]
    exact hne.symm

theorem Trace.overwritten (hd : 6 ≤ size d)
    (ht : Trace .opensCreated 6 d root (forgingHistory root s h r) written m st) :
    Overwritten d root s m st := by
  cases ht with
  | step h₅ _ hwrite =>
  cases h₅ with
  | step h₄ _ hopenRoot =>
  cases h₄ with
  | step h₃ hlegal₃ hclose =>
  cases h₃ with
  | step h₂ hlegal₂ hremove =>
  cases h₂ with
  | step h₁ _ hopen =>
  cases h₁ with
  | step h₀ _ hcreate =>
  cases h₀ with
  | formatted hformat hroot =>
  have hw₀ := Within.formatted hd hformat
  rw [hroot] at hw₀
  obtain ⟨⟨-, hnew, -⟩, hw₁⟩ := hw₀.step (o := .create 0 .file) trivial hcreate
  have hne : s ≠ root := fun he => hnew (Finset.mem_singleton.2 he)
  have hs : s ∈ ((FileStore.initial root).after (.create 0 .file) (.ok s)).live :=
    Finset.mem_insert_self s {root}
  obtain ⟨hlow, hlt⟩ := hw₁.onVolume.index_bounds hs
  obtain ⟨-, hw₂⟩ := hw₁.step (o := .openAt s) hs hopen
  obtain ⟨-, hw₃⟩ := hw₂.step (o := .remove h) hlegal₂ hremove
  obtain ⟨-, hw₄⟩ := hw₃.step (o := .close h) hlegal₃ hclose
  -- Nothing is left of the inode but what is on the device.
  change Within 6 d _ (FileStore.vanished root s h) at hw₄
  change Overwritten d root s _ (((FileStore.vanished root s h).after (.openAt root)
    (.ok r)).after (.writeAt r 0 forgery) (1536 : Nat))
  have hlive : (FileStore.vanished root s h).live = {root} := FileStore.live_vanished hne
  have hroot' : root ∈ (FileStore.vanished root s h).live := by
    rw [hlive]
    exact Finset.mem_singleton_self root
  obtain ⟨-, hw₅⟩ := hw₄.step (o := .openAt root) hroot' hopenRoot
  rw [FileStore.after_openAt (FileStore.opened_vanished r)] at hw₅ ⊢
  refine hw₅.overwritten hlive FileStore.held_vanished (FileStore.opened_setOpened_self _ _ _)
    (fun k f hf => ?_) (FileStore.file_vanished hne) hne hlow hlt hwrite
  by_cases hk : k = r
  · rw [hk, FileStore.opened_setOpened_self] at hf
    cases hf
    rfl
  · rw [FileStore.opened_setOpened_of_ne _ hk, FileStore.opened_vanished] at hf
    cases hf

/-- Who opens the sector once more has the forged record, and reads behind the volume. -/
theorem Overwritten.opens (h : Overwritten d root s m st) (hd : 6 < size d) :
    ∃ k reg w, m.attempt (.openAt s) = (.ok (.ok k, reg), w) ∧
      ((⟨w.device, reg⟩ : Machine δ FreeMap).attempt (.readAt k 0 1)).1 =
        .ok (#[(image d 6)[0]], reg) := by
  have hsize : 6 < size m.device := hd.trans_eq h.within.size_eq.symm
  obtain ⟨hm, hu⟩ := h.within.onVolume.inUse
  obtain ⟨a, registered, hc⟩ := hu.consistent
  have hfind := hc.find?_eq_none h.closed
  have hopen : (((Operation.openAt s).perform ⟨0⟩).run m.registry).Ensures (· < 6)
      (fun _ _ => False) (fun x _ => ∃ reg : Registry FreeMap,
        x = (.ok ⟨m.registry.handles.size⟩,
          reg.pushHandle ⟨⟨0⟩, .ofRecord s forgedRecord⟩) ∧
        reg.handles = m.registry.handles) (image m.device) := by
    rw [Operation.perform, RegistryM.openAt_run_new hc.table?_eq hfind]
    simp only [ensures_bind, ensures_load]
    refine ⟨h.index_lt, ?_⟩
    rw [← recordAt_eq_decode, h.forged, if_neg (by decide)]
    exact ⟨_, rfl, rfl⟩
  obtain ⟨x, w, hrun, ⟨reg, rfl, hhandles⟩, hdevice, -⟩ := hopen.run_silent
    (w := ⟨m.device, #[]⟩) fun k hk => Nat.lt_trans hk hsize
  have hhandle : (reg.pushHandle ⟨⟨0⟩, .ofRecord s forgedRecord⟩).handle? ⟨reg.handles.size⟩ =
    some ⟨⟨0⟩, .ofRecord s forgedRecord⟩ := reg.handle?_pushHandle_self
  rw [hhandles] at hhandle
  have hread : ((((Operation.readAt ⟨m.registry.handles.size⟩ 0 1).perform ⟨0⟩).run
      (reg.pushHandle ⟨⟨0⟩, .ofRecord s forgedRecord⟩)).Ensures (· = 6) (fun _ _ => False)
      (fun x _ => x = (#[(image d 6)[0]], reg.pushHandle ⟨⟨0⟩, .ofRecord s forgedRecord⟩))
      (image m.device)) := by
    simp only [Operation.perform, RegistryM.readAt, StateT.run_bind, RegistryM.inode_run hhandle,
      StateT.run_lift, bind_eq, pure_eq, done_bind, ensures_bind, ensures_done]
    refine (readAt_forged rfl (image m.device)).imp fun b _ hb => ?_
    rw [hb, h.within.beyond 6 (by decide)]
  obtain ⟨y, w', hrun', rfl, -⟩ := hread.run_silent (w := ⟨m.device, #[]⟩) fun k hk => hk ▸ hsize
  refine ⟨_, _, w, hrun, ?_⟩
  rw [attempt, hdevice, hrun']

theorem OnVolume.free_eq_two {free : Nat} (h : OnVolume 6 m st) (hfree : m.CountsFree 6 free)
    (hlive : st.live = {root}) (hheld : st.held = ∅)
    (hblank : st.file root = .blank .directory 0) : free = 2 := by
  have hsum := h.room_eq hfree
  rw [FileStore.occupied_single hlive hheld, hblank, File.size_blank] at hsum
  have hblocks : 1 + FreeMap.blocksFor (6 : UInt32).toNat = 2 := rfl
  have htotal : (6 : UInt32).toNat = 6 := rfl
  have hone : totalSectors (dataBlocks 0) = 1 := rfl
  omega

theorem exists_forging (hd : 6 ≤ size d) : ∃ root s h r written m st,
    Trace .opensCreated 6 d root (forgingHistory root s h r) written m st := by
  obtain ⟨v, w, hrun, -⟩ := exists_format 6 hd (by decide)
  obtain ⟨root, hroot⟩ : ∃ root, v.root = root := ⟨_, rfl⟩
  have ht₀ : Trace .opensCreated 6 d root [] _ _ _ := .formatted hrun hroot
  have hv₀ : OnVolume 6 ⟨w.device, .over v.freeMap⟩ (.initial root) :=
    ⟨d, v, w, hd, hrun, hroot ▸ .refl⟩
  obtain ⟨free, hfree, -⟩ := hv₀.countsFree
  obtain rfl : free = 2 := hv₀.free_eq_two hfree rfl rfl rfl
  obtain ⟨s, m₁, rest, hx₁, -, -⟩ := hv₀.create_exact hfree 0 .file
  obtain ⟨hm₀, hu₀⟩ := hv₀.inUse
  obtain ⟨⟨-, hnew, -⟩, -⟩ := hu₀.after (o := .create 0 .file) trivial hx₁
  have hne : s ≠ root := fun he => hnew (Finset.mem_singleton.2 he)
  obtain ⟨W₁, ht₁⟩ := ht₀.replied (o := .create 0 .file) trivial hx₁
  have hv₁ := hv₀.step (o := .create 0 .file) trivial hx₁
  obtain ⟨_ | h, m₂, W₂, ht₂, hv₂, hadmits₂⟩ := ht₁.continues (o := .openAt s) hv₁
    (Or.inr ⟨0, .file, List.mem_singleton_self _⟩) (Finset.mem_insert_self s {root}) rfl
  · exact hadmits₂.elim
  have hopened : (((FileStore.initial root).after (.create 0 .file) (.ok s)).after (.openAt s)
    (.ok h)).opened h = some ⟨s, 1, false, 0⟩ := FileStore.opened_setOpened_self _ _ _
  obtain ⟨⟨⟩, m₃, W₃, ht₃, hv₃, -⟩ :=
    ht₂.continues (o := .remove h) hv₂ ⟨_, hopened⟩ ⟨_, hopened⟩ rfl
  have hremoved := FileStore.opened_remove_self hopened
  obtain ⟨⟨⟩, m₄, W₄, ht₄, hv₄, -⟩ :=
    ht₃.continues (o := .close h) hv₃ ⟨_, hremoved⟩ ⟨_, hremoved⟩ rfl
  change OnVolume 6 m₄ (FileStore.vanished root s h) at hv₄
  change Trace _ 6 d root _ W₄ m₄ (FileStore.vanished root s h) at ht₄
  have hlive : (FileStore.vanished root s h).live = {root} := FileStore.live_vanished hne
  obtain ⟨_ | r, m₅, W₅, ht₅, hv₅, hadmits₅⟩ := ht₄.continues (o := .openAt root) hv₄ (Or.inl rfl)
    (by
      rw [FileStore.Legal, hlive]
      exact Finset.mem_singleton_self root) rfl
  · exact hadmits₅.elim
  rw [FileStore.after_openAt (FileStore.opened_vanished r)] at hv₅ ht₅
  obtain ⟨free, hfree, -⟩ := hv₅.countsFree
  obtain rfl : free = 2 := hv₅.free_eq_two hfree hlive FileStore.held_vanished
    (FileStore.file_vanished hne)
  have hr := FileStore.opened_setOpened_self (FileStore.vanished root s h) r
    (some ⟨root, 1, false, 0⟩)
  obtain ⟨count, m₆, rest₆, hx₆, ⟨⟨hcount, -⟩, hgreatest⟩, -⟩ :=
    hv₅.writeAt_exact hfree hr rfl (by decide : 0 < 2 ^ 64) forgery
  have hfile : (((FileStore.vanished root s h).setOpened r (some ⟨root, 1, false, 0⟩)).fileOf
      ⟨root, 1, false, 0⟩) = .blank .directory 0 := FileStore.file_vanished hne
  rw [hfile, File.size_blank] at hgreatest
  have hroom : RoomFor 2 (dataBlocks 0) 0 1536 := Or.inr (by decide)
  have hle : 1536 ≤ count := hgreatest ⟨size_forgery.ge, hroom⟩
  obtain rfl : count = 1536 := Nat.le_antisymm (size_forgery ▸ hcount) hle
  obtain ⟨W₆, ht₆⟩ := ht₅.replied (o := .writeAt r 0 forgery) ⟨⟨_, hr⟩, by decide⟩ hx₆
  exact ⟨root, s, h, r, W₆, m₆, _, ht₆⟩

/-- It does show to whoever opens an inode that is gone: a forged record may lead anywhere. -/
theorem not_ignoresContents_opensCreated : ¬ Contract.opensCreated.IgnoresContents := by
  intro hignores
  obtain ⟨root, s, h, r, W, m, st, ht⟩ := exists_forging (d := SectorArray.filled 7 7) (by decide)
  obtain ⟨k, reg, w, hopen, hread⟩ := (ht.overwritten (by decide)).opens (by decide)
  obtain ⟨-, hmirrors⟩ := hignores 6 (SectorArray.filled 7 7) (SectorArray.filled 7 0) (by decide)
    (by decide)
  obtain ⟨m', ht', hm⟩ := hmirrors (ht.step (o := .openAt s)
    (Or.inr ⟨0, .file, by simp [forgingHistory]⟩) hopen)
  have hlegal : (st.after (.openAt s) (.ok k)).Legal (.readAt k 0 1) := by
    refine ⟨?_, by decide⟩
    rw [FileStore.after, FileStore.reopened]
    split <;> exact ⟨_, FileStore.opened_setOpened_self _ _ _⟩
  have hsame := hm.attempt_eq (.readAt k 0 1) hlegal
  obtain ⟨W', m₀, st₀, reg₁, w₁, ht₀, hopen', rfl⟩ := ht'.last
  obtain ⟨k', reg', w', hopen'', hread'⟩ := (ht₀.overwritten (by decide)).opens (by decide)
  rw [hopen'] at hopen''
  cases hopen''
  rw [hread, hread', SectorArray.image_filled (by decide),
    SectorArray.image_filled (by decide)] at hsame
  cases hsame

end Machine

end Forgery

end InodeVolume

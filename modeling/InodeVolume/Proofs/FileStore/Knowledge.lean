import InodeVolume.Proofs.FileStore.Operations
import InodeVolume.Proofs.FileStore.Provision

/-!
Over a free map, every operation reads only what is known: the map, the inodes that there are, and
what it has written itself. The inodes that there are after it are known again.
-/
namespace InodeVolume

/-- All that a volume reads is known: its map, and the inodes that there are. -/
structure KnownStore (m : FreeMap) (d : Image) (st : FileStore) (K : Set Nat) : Prop where
  map (n : Nat) : m.InMap n → n ∈ K
  inode {s : SectorId} : s ∈ st.live → Known K (footprint d s)

namespace FileStore

variable {st : FileStore} {h : HandleId} {f : OpenFile} {s : SectorId}

theorem eq_of_inode? (hf : st.opened h = some f) (hs : st.inode? h = some s) : s = f.inode := by
  rw [inode?_eq hf, Option.some.injEq] at hs
  exact hs.symm

end FileStore

namespace Serving

open Program

variable {m : FreeMap} {size : Nat} {hm : m.Fits size} {a : FreeMap} {registered : List HandleId}
  {d : Image} {reg : Registry FreeMap} {st : FileStore} {h : HandleId} {f : OpenFile} {K : Set Nat}
  {o : Operation}

/-- The sectors of an inode are given back without a look at them. -/
theorem reclaim_informed (hc : Serving (FreeMap.lender hm) a registered d reg st)
    (hK : KnownStore m d st K) {s : SectorId} {x : Handle} (hs : s ∈ st.live)
    (hx : x.inode.sector = s) (hrecord : x.inode.record = recordAt d s) (hh : st.opened h = none)
    (hreg : reg.handle? h = some x) :
    ((RegistryM.reclaim ⟨0⟩ h).run reg).Informed (fun _ _ _ => True) d K := by
  have hstored := (hc.laid.represents hs).stored
  have hused := FileStore.used_eq_union (d := d) hs
  obtain ⟨room, hroom⟩ := hc.exists_room (hused ▸ Finset.subset_union_right)
  have hprovided : Program.Provided room (do
      Store.releaseAll ((recordAt d s).pointerList d)
      Store.release s) (fun _ _ _ _ => True) d (footprint d s) K := by
    rw [bind_eq, provided_bind]
    refine Store.releaseAll_provided.imp fun _ _ _ _ _ => ?_
    rw [provided_release]
    exact fun _ _ => trivial
  rw [reclaim_run hreg, informed_bind, hrecord, hx]
  refine ((hc.reachable_ensures (G := fun _ _ => True)
    (Q := fun ids d' => ids = (recordAt d s).pointerList d ∧ d' = d) hs ⟨rfl, rfl⟩).informed
    fun n hn => (hK.inode hs).of_owned hn).imp ?_
  rintro _ d₁ K₁ ⟨⟨rfl, rfl⟩, rfl⟩
  rw [informed_bind, informed_note]
  refine ((hc.unopened hh _).served_informed hused (hc.laid.disjoint_others hs)
    (release_secures hstored.linked.nodup_pointerList ?_ ?_) hprovided hroom hK.map).imp
    fun _ _ _ _ => trivial
  · rw [InodeRecord.toFinset_pointerList]
    exact hstored.apart
  · rw [InodeRecord.toFinset_pointerList, footprint]

/-- A program that owns nothing yet. -/
theorem served_alone {α : Type} {p : Program Store α} {F R : Finset SectorId}
    {S : α → Image → Finset SectorId → Prop}
    (hc : Serving (FreeMap.lender hm) a registered d reg st) (hK : KnownStore m d st K)
    (hused : st.used d = F ∪ R) (hdisjoint : Disjoint F R) (hp : p.Secures Store.anyStep S d F)
    (hq : ∀ room, p.Provided room (fun _ _ _ _ => True) d F K) :
    ((RegistryM.served ⟨0⟩ p).run reg).Informed (fun _ _ _ => True) d K := by
  obtain ⟨room, hroom⟩ := hc.exists_room (hused ▸ Finset.subset_union_right)
  exact (hc.served_informed hused hdisjoint hp (hq room) hroom hK.map).imp fun _ _ _ _ => trivial

theorem allocate_informed (hc : Serving (FreeMap.lender hm) a registered d reg st)
    (hK : KnownStore m d st K) : ((RegistryM.served ⟨0⟩ Store.allocate).run reg).Informed
      (fun _ _ _ => True) d K := by
  have hp : Store.allocate.Secures Store.anyStep (fun _ _ _ => True) d ∅ := by
    rw [secures_allocate]
    exact fun _ _ => ⟨fun _ _ => trivial, trivial, fun _ _ => trivial⟩
  refine hc.served_alone hK (Finset.empty_union _).symm (Finset.disjoint_empty_left _) hp
    fun room => ?_
  rw [provided_allocate]
  exact fun _ _ => ⟨fun _ => trivial, fun _ _ _ => trivial⟩

theorem allocateMany_informed (hc : Serving (FreeMap.lender hm) a registered d reg st)
    (hK : KnownStore m d st K) {count : Nat} (hcount : count < Store.listLimit) :
    ((RegistryM.served ⟨0⟩ (Store.allocateMany count)).run reg).Informed
      (fun _ _ _ => True) d K :=
  hc.served_alone hK (Finset.empty_union _).symm (Finset.disjoint_empty_left _)
    (Store.allocateMany_secures hcount (Store.lenient_anyStep ∅ d)) fun _ =>
      (Store.allocateMany_provided count).imp fun _ _ _ _ _ => trivial

theorem release_informed (hc : Serving (FreeMap.lender hm) a registered d reg st)
    (hK : KnownStore m d st K) {s : SectorId} (hs : s ∈ st.held) :
    ((RegistryM.served ⟨0⟩ (Store.release s)).run reg).Informed (fun _ _ _ => True) d K := by
  have hp : (Store.release s).Secures Store.anyStep (fun _ _ _ => True) d {s} := by
    rw [secures_release]
    exact ⟨Finset.mem_singleton_self s, fun _ _ => ⟨fun _ _ => trivial, trivial⟩⟩
  refine hc.served_alone hK (used_eq_erase hs) (hc.disjoint_erase hs) hp fun room => ?_
  rw [provided_release]
  exact fun _ _ => trivial

/-- The last close of a removed inode gives back its sectors. -/
theorem close_last_informed (hc : Serving (FreeMap.lender hm) a registered d reg st)
    (hK : KnownStore m d st K) (hf : st.opened h = some f) (hlast : f.openers = 1)
    (hr : f.removed = true) : ((Operation.perform ⟨0⟩ (.close h)).run reg).Informed
      (fun _ _ _ => True) d K := by
  rw [Operation.perform, hc.close_last_run hf hlast, if_pos hr, informed_bind, informed_note]
  have hforgotten := (hc.forgotten h).unopened (st.opened_setOpened_self h none)
    ⟨⟨0⟩, { f.inodeOn d with openers := f.openers - 1 }⟩
  refine hforgotten.reclaim_informed ⟨hK.map, hK.inode⟩ (hc.live hf) rfl rfl
    (st.opened_setOpened_self h none)
    (x := ⟨⟨0⟩, { f.inodeOn d with openers := f.openers - 1 }⟩) ?_
  exact Registry.handle?_setHandle_self (Registry.handle?_setTable.trans (hc.handle hf))

/-- Any other close changes no sector. -/
theorem close_stays_informed (hc : Serving (FreeMap.lender hm) a registered d reg st)
    (hK : KnownStore m d st K) (hf : st.opened h = some f)
    (hstays : ¬ (f.openers = 1 ∧ f.removed = true)) :
    ((Operation.perform ⟨0⟩ (.close h)).run reg).Informed
      (fun _ d' K' => ∀ s ∈ st.live, Known K' (footprint d' s)) d K := by
  refine ((hc.close_stays_ensures (A := fun _ => False) (G := fun _ _ => True) hf
    hstays).frame.informed fun _ hn => hn.elim).imp ?_
  rintro x d' K' ⟨⟨-, hsame⟩, rfl⟩ s hs
  obtain rfl : d' = d := funext fun n => hsame n not_false
  exact hK.inode hs

/-- The inodes that an operation has made or changed are known. -/
def Learned (st : FileStore) (o : Operation) (x : o.Reply × Registry FreeMap) (d' : Image)
    (K' : Set Nat) : Prop :=
  ∀ s ∈ (st.after o x.1).live, (s ∈ st.live → st.subject o = some s) → Known K' (footprint d' s)

/-- What makes no inode and changes none learns nothing. -/
theorem learned_of_spared {x : o.Reply × Registry FreeMap} {d' : Image} {K' : Set Nat}
    (hlive : ∀ s ∈ (st.after o x.1).live, s ∈ st.live ∧ st.subject o ≠ some s) :
    Learned st o x d' K' := by
  intro s hs hnew
  obtain ⟨hold, hne⟩ := hlive s hs
  exact absurd (hnew hold) hne

theorem create_learns (hc : Serving (FreeMap.lender hm) a registered d reg st)
    (hK : KnownStore m d st K) (length : Nat) (kind : InodeKind) :
    (((Operation.create length kind).perform ⟨0⟩).run reg).Informed
      (Learned st (.create length kind)) d K := by
  obtain ⟨room, hroom⟩ := hc.exists_room (R := st.used d) (Finset.Subset.refl _)
  refine (hc.create_informed length kind hroom hK.map).imp fun x d' K' hx s hs hnew => ?_
  rcases x with ⟨e | s', reg'⟩
  · cases hnew hs
  · rcases Finset.mem_insert.1 hs with rfl | hs
    · exact hx.1 s rfl
    · cases hnew hs

theorem createAt_learns (hc : Serving (FreeMap.lender hm) a registered d reg st)
    (hK : KnownStore m d st K) {t : SectorId} (ht : t ∈ st.held) (length : Nat)
    (kind : InodeKind) : (((Operation.createAt t length kind).perform ⟨0⟩).run reg).Informed
      (Learned st (.createAt t length kind)) d K := by
  refine (hc.createAt_informed ht length kind hK.map).imp fun x d' K' hx s hs hnew => ?_
  rcases x with ⟨e | ⟨⟩, reg'⟩
  · cases hnew hs
  · rcases Finset.mem_insert.1 hs with rfl | hs
    · exact hx rfl
    · cases hnew hs

theorem close_learns (hc : Serving (FreeMap.lender hm) a registered d reg st)
    (hK : KnownStore m d st K) (hf : st.opened h = some f) :
    (((Operation.close h).perform ⟨0⟩).run reg).Informed (Learned st (.close h)) d K := by
  by_cases hgone : f.openers = 1 ∧ f.removed = true
  · refine (hc.close_last_informed hK hf hgone.1 hgone.2).imp fun _ _ _ _ =>
      learned_of_spared fun s hs => ?_
    have hafter : st.after (.close h) () = _ := FileStore.closed_eq hf
    rw [hafter, if_pos hgone.1, if_pos hgone.2] at hs
    obtain ⟨hne, hs⟩ := Finset.mem_erase.1 hs
    exact ⟨hs, fun hsubject => hne (FileStore.eq_of_inode? hf hsubject)⟩
  · refine (hc.close_stays_informed hK hf hgone).imp fun x d' K' hx s hs _ => ?_
    obtain ⟨live, opened, hsubset, hafter⟩ := st.exists_closed_eq h
    rw [FileStore.after, hafter] at hs
    exact hx s (hsubset hs)

theorem writeAt_learns (hc : Serving (FreeMap.lender hm) a registered d reg st)
    (hK : KnownStore m d st K) (hf : st.opened h = some f) {offset : Nat}
    (hoffset : offset < 2 ^ 64) (buffer : Bytes) :
    (((Operation.writeAt h offset buffer).perform ⟨0⟩).run reg).Informed
      (Learned st (.writeAt h offset buffer)) d K := by
  obtain ⟨room, hroom⟩ := hc.exists_room (R := st.others d f.inode) FileStore.others_subset_used
  refine (hc.writeAt_informed hf hoffset buffer hroom hK.map (hK.inode (hc.live hf))).imp
    fun x d' K' hx s hs hnew => ?_
  rw [FileStore.after_writeAt hf] at hs
  rw [FileStore.eq_of_inode? hf (hnew hs)]
  exact hx.1

theorem extend_learns (hc : Serving (FreeMap.lender hm) a registered d reg st)
    (hK : KnownStore m d st K) (hf : st.opened h = some f) (target : Nat) :
    (((Operation.extend h target).perform ⟨0⟩).run reg).Informed
      (Learned st (.extend h target)) d K := by
  obtain ⟨room, hroom⟩ := hc.exists_room (R := st.others d f.inode) FileStore.others_subset_used
  refine (hc.extend_informed hf target hroom hK.map (hK.inode (hc.live hf))).imp
    fun x d' K' hx s hs hnew => ?_
  obtain ⟨file, hafter⟩ := st.exists_after_extend_eq h target x.1
  rw [hafter] at hs
  rw [FileStore.eq_of_inode? hf (hnew hs)]
  exact hx.1

/-- What an operation makes or changes is known in the end. -/
theorem perform_learns (hc : Serving (FreeMap.lender hm) a registered d reg st)
    (hK : KnownStore m d st K) (hlegal : st.Legal o) (hrefusal : st.refusal o = none) :
    ((o.perform ⟨0⟩).run reg).Informed (Learned st o) d K := by
  -- An operation without a subject rewrites no inode.
  have spares (hsubject : st.subject o = none)
      (h : ((o.perform ⟨0⟩).run reg).Informed (fun _ _ _ => True) d K)
      (hlive : ∀ x, (st.after o x).live ⊆ st.live) :
      ((o.perform ⟨0⟩).run reg).Informed (Learned st o) d K :=
    h.imp fun x _ _ _ => learned_of_spared fun s hs =>
      ⟨hlive x.1 hs, by rw [hsubject]; exact (Option.some_ne_none s).symm⟩
  -- An operation that looks at one inode, and changes none.
  have looks {s : SectorId} {Q : o.Reply × Registry FreeMap → Image → Prop}
      (hsubject : st.subject o = none) (hs : s ∈ st.live)
      (h : ((o.perform ⟨0⟩).run reg).Ensures (Owned (footprint d s)) (fun _ _ => True) Q d) :=
    spares hsubject ((h.informed fun n hn => (hK.inode hs).of_owned hn).imp fun _ _ _ _ => trivial)
  cases o with
  | create length kind => exact hc.create_learns hK length kind
  | createAt s length kind => exact hc.createAt_learns hK hlegal length kind
  | openAt s =>
    refine looks rfl hlegal (hc.openAt_ensures hlegal) fun x t ht => ?_
    rcases x with e | k
    · exact ht
    · obtain ⟨f, hafter⟩ := st.exists_reopened_eq k s
      rwa [FileStore.after, hafter] at ht
  | reopen h =>
    obtain ⟨f, hf⟩ := hlegal
    exact looks rfl (hc.live hf) (hc.reopen_ensures hf) fun _ _ hs => hs
  | close h =>
    obtain ⟨f, hf⟩ := hlegal
    exact hc.close_learns hK hf
  | remove h =>
    obtain ⟨f, hf⟩ := hlegal
    exact looks rfl (hc.live hf) (hc.remove_ensures hf) fun _ _ hs => hs
  | denyWrite h =>
    obtain ⟨f, hf⟩ := hlegal
    exact looks rfl (hc.live hf) (hc.denyWrite_ensures hf (FileStore.lt_of_refusal_denyWrite hf
      hrefusal)) fun _ _ hs => hs
  | allowWrite h =>
    obtain ⟨f, hf⟩ := hlegal
    obtain ⟨hpos, hle⟩ := FileStore.le_of_refusal_allowWrite hf hrefusal
    exact looks rfl (hc.live hf) (hc.allowWrite_ensures hf hpos hle) fun _ _ hs => hs
  | sectorOf h position =>
    obtain ⟨f, hf⟩ := hlegal
    exact looks rfl (hc.live hf) (hc.sectorOf_ensures hf position) fun _ _ hs => hs
  | readAt h offset length =>
    obtain ⟨⟨f, hf⟩, hlength⟩ := hlegal
    exact looks rfl (hc.live hf) (hc.readAt_ensures hf offset hlength) fun _ _ hs => hs
  | writeAt h offset buffer =>
    obtain ⟨⟨f, hf⟩, hoffset⟩ := hlegal
    exact hc.writeAt_learns hK hf hoffset buffer
  | extend h target =>
    obtain ⟨f, hf⟩ := hlegal
    exact hc.extend_learns hK hf target
  | status h =>
    obtain ⟨f, hf⟩ := hlegal
    exact looks rfl (hc.live hf) (hc.status_ensures hf) fun _ _ hs => hs
  | allocate =>
    exact spares rfl (hc.allocate_informed hK) fun x _ hs => by cases x <;> exact hs
  | allocateMany count =>
    exact spares rfl (hc.allocateMany_informed hK (FileStore.lt_of_refusal_allocateMany hrefusal))
      fun x _ hs => by cases x <;> exact hs
  | release s => exact spares rfl (hc.release_informed hK hlegal) fun _ _ hs => hs

/-- A legal operation reads nothing that is not known, and what it leaves is known again. -/
theorem perform_informed (hc : Serving (FreeMap.lender hm) a registered d reg st)
    (hK : KnownStore m d st K) (hlegal : st.Legal o) :
    ((o.perform ⟨0⟩).run reg).Informed
      (fun x d' K' => KnownStore m d' (st.after o x.1) K') d K := by
  cases hrefusal : st.refusal o with
  | some b =>
    rw [hc.perform_refused hlegal hrefusal]
    exact informed_breach
  | none =>
    refine ((hc.perform_learns hK hlegal hrefusal).grows.and
      (hc.perform_spares hlegal hrefusal)).imp ?_
    rintro x d' K' ⟨⟨hnew, hK'⟩, -, hspares⟩
    refine ⟨fun n hn => hK' (hK.map n hn), fun {s} hs => ?_⟩
    by_cases hold : s ∈ st.live ∧ st.subject o ≠ some s
    · obtain ⟨hlive, hsubject⟩ := hold
      rw [(hc.laid.represents hlive).footprint_congr
        (hspares.mono (FileStore.footprint_subset_spared hlive hsubject))]
      exact (hK.inode hlive).mono hK'
    · exact hnew s hs fun hlive => of_not_not fun hne => hold ⟨hlive, hne⟩

end Serving

end InodeVolume

import InodeVolume.Proofs.Registry.Recording
import InodeVolume.Proofs.Volume.Alike
import InodeVolume.Proofs.Volume.Shape

/-!
The life of an inode, from its creation to the last close after its removal, over an allocator that
keeps a record of its calls. What was handed out for the inode and not given back is at any time
what its record reaches; the last close gives back just that, and the record sector.
-/
namespace InodeVolume

/-- An inode has its sectors of before and those that were kept. -/
theorem pointers_eq_union {d : Image} {s : SectorId} {P R K : Finset SectorId}
    (hunion : footprint d s ∪ R = insert s P ∪ R ∪ K) (hnew : Disjoint (footprint d s) R)
    (hold : Disjoint (insert s P) R) (hkept : Disjoint K (insert s P ∪ R)) (hs : s ∉ P)
    (hapart : s ∉ (recordAt d s).pointers d) : (recordAt d s).pointers d = P ∪ K := by
  have hfootprint : footprint d s = insert s (P ∪ K) := by
    have hcancel : footprint d s = (footprint d s ∪ R) \ R := by
      rw [Finset.union_sdiff_right, Finset.sdiff_eq_self_of_disjoint hnew]
    rw [Finset.disjoint_union_right] at hkept
    have hdisjoint : Disjoint (insert s P ∪ K) R := Finset.disjoint_union_left.2 ⟨hold, hkept.2⟩
    rw [hcancel, hunion, Finset.union_right_comm, Finset.union_sdiff_right,
      Finset.sdiff_eq_self_of_disjoint hdisjoint, Finset.insert_union]
  have hkept' : s ∉ K := fun hsK =>
    Finset.disjoint_left.1 hkept hsK (Finset.mem_union_left _ (Finset.mem_insert_self s P))
  have hnot : s ∉ P ∪ K := by
    rw [Finset.mem_union, not_or]
    exact ⟨hs, hkept'⟩
  rw [← Finset.erase_insert hapart, ← Finset.erase_insert hnot, ← hfootprint, footprint]

namespace Machine

open Program LawfulBlockDevice

variable {δ σ : Type}

def calls (m : Machine δ (Recorded σ)) : List Call := m.registry.calls

/-- The calls that have been made by the time the machine has become `m'`. -/
def callsUntil (m m' : Machine δ (Recorded σ)) : List Call := m'.calls.drop m.calls.length

theorem callsUntil_eq {m m' : Machine δ (Recorded σ)} {c : List Call}
    (h : m'.calls = m.calls ++ c) : m.callsUntil m' = c := by
  rw [callsUntil, h, List.drop_left]

variable [BlockDevice δ] [LawfulBlockDevice δ] [Allocator σ] {n : Nat} {l : Lender σ n}
  {m m' m₀ : Machine δ (Recorded σ)} {st st' st₀ : FileStore} {o : Operation} {s : SectorId}
  {k : HandleId} {f : OpenFile} {U₀ : Finset SectorId} {c : List Call}

namespace InUse

/-- An operation adds its calls to the record, and takes no handle away. -/
theorem records (h : InUse (l.recorded U₀) m st) (hlegal : st.Legal o) {x : o.Reply}
    (hx : m.Replies o x m') : m'.calls = m.calls ++ m.callsUntil m' ∧
      m.registry.handles.size ≤ m'.registry.handles.size := by
  obtain ⟨a, registered, hc⟩ := h.consistent
  obtain ⟨journal, hrun⟩ := hx
  obtain ⟨t, hends⟩ := exists_ends hrun
  obtain ⟨c, hrecords⟩ := hc.records_of_ends hlegal hends
  refine ⟨?_, hrecords.handles_le⟩
  rw [callsUntil_eq hrecords.calls_eq]
  exact hrecords.calls_eq

/-- The record accounts for the sectors in use. -/
theorem moves (h : InUse (l.recorded U₀) m st) :
    Call.Moves m.calls U₀ (st.used (image m.device)) := by
  obtain ⟨a, registered, hc⟩ := h.consistent
  rw [calls, Registry.calls_eq hc.table?_eq]
  exact hc.lends.2

theorem moves_of_calls_eq (h : InUse (l.recorded U₀) m st) (h' : InUse (l.recorded U₀) m' st')
    (hcalls : m'.calls = m.calls ++ c) :
    Call.Moves c (st.used (image m.device)) (st'.used (image m'.device)) := by
  have hmoves := h'.moves
  rw [hcalls] at hmoves
  obtain ⟨U₁, h₁, h₂⟩ := Call.moves_append.1 hmoves
  rwa [h₁.unique h.moves] at h₂

/-- Where the calls are in rounds, an inode gains what these have kept. -/
theorem pointers_of_rounds (h : InUse (l.recorded U₀) m st) (h' : InUse (l.recorded U₀) m' st')
    {rounds : List Round} (hcalls : m'.calls = m.calls ++ rounds.flatMap Round.calls)
    {P R : Finset SectorId} (hused : st.used (image m.device) = insert s P ∪ R)
    (hdisjoint : Disjoint (insert s P) R) (hs : s ∉ P) (hlive : s ∈ st'.live)
    (hothers : st'.others (image m'.device) s = R) :
    (recordAt (image m'.device) s).pointers (image m'.device) =
        P ∪ (rounds.flatMap Round.kept).toFinset ∧
      (rounds.flatMap Round.kept).Nodup ∧ Disjoint (rounds.flatMap Round.kept).toFinset P := by
  obtain ⟨hunion, hnodup, hnew⟩ := Round.moves_flatMap (h.moves_of_calls_eq h' hcalls)
  have hown := h'.laid.disjoint_others hlive
  rw [FileStore.used_eq_union hlive, hothers, hused] at hunion
  rw [hothers] at hown
  rw [hused] at hnew
  refine ⟨?_, hnodup, hnew.mono_right ?_⟩
  · exact pointers_eq_union hunion hown hdisjoint hnew hs (h'.laid.represents hlive).stored.apart
  · exact (Finset.subset_insert s P).trans Finset.subset_union_left

/-- What is done with an inode that stays is paid in rounds, and the inode has what they kept. -/
theorem step_on (h : InUse (l.recorded U₀) m st) (hlegal : st.Legal o) (hon : st.On s o)
    {x : o.Reply} (hx : m.Replies o x m') (hs : s ∈ st.live) (hlive : s ∈ (st.after o x).live) :
    ∃ rounds : List Round, m.callsUntil m' = rounds.flatMap Round.calls ∧
      (recordAt (image m'.device) s).pointers (image m'.device) =
        (recordAt (image m.device) s).pointers (image m.device) ∪
          (rounds.flatMap Round.kept).toFinset ∧
      (rounds.flatMap Round.kept).Nodup ∧
      Disjoint (rounds.flatMap Round.kept).toFinset
        ((recordAt (image m.device) s).pointers (image m.device)) := by
  obtain ⟨a, registered, hc⟩ := h.consistent
  obtain ⟨-, h'⟩ := h.after hlegal hx
  have hothers := h.others_of_on hlegal hon hx
  obtain ⟨journal, hrun⟩ := hx
  obtain ⟨t, hends⟩ := exists_ends hrun
  obtain ⟨c, hrecords, hrounds⟩ := hc.records_of_on hon hends
  obtain ⟨rounds, rfl⟩ := hrounds hlive
  refine ⟨rounds, callsUntil_eq hrecords.calls_eq, ?_⟩
  exact h.pointers_of_rounds h' hrecords.calls_eq (FileStore.used_eq_union hs)
    (h.laid.disjoint_others hs) (h.laid.represents hs).stored.apart hlive hothers

/-- A new inode has what was kept of the sectors obtained for it. -/
theorem step_created (h : InUse (l.recorded U₀) m st) {length : Nat} {kind : InodeKind}
    (hs : s ∈ st.held) (hx : m.Replies (.createAt s length kind) (.ok ()) m') :
    ∃ rounds : List Round, m.callsUntil m' = rounds.flatMap Round.calls ∧
      (recordAt (image m'.device) s).pointers (image m'.device) =
        (rounds.flatMap Round.kept).toFinset ∧ (rounds.flatMap Round.kept).Nodup := by
  obtain ⟨a, registered, hc⟩ := h.consistent
  have hlegal : st.Legal (.createAt s length kind) := hs
  obtain ⟨⟨-, hnew⟩, h', hspares⟩ := h.step hlegal hx
  have herase : (st.after (.createAt s length kind) (.ok ())).live.erase s = st.live.erase s :=
    Finset.erase_insert_eq_erase _ _
  have hlive : s ∈ (st.after (.createAt s length kind) (.ok ())).live := Finset.mem_insert_self s _
  have hrest : (st.live.erase s).biUnion (footprint (image m.device)) ⊆
      st.spared (image m.device) (.createAt s length kind) :=
    (Finset.biUnion_subset_biUnion_of_subset_left _ (Finset.erase_subset _ _)).trans
      Finset.subset_union_right
  have hothers := h.laid.others_eq herase (hspares.mono hrest)
  have hused : st.used (image m.device) = insert s ∅ ∪
      (st.held.erase s ∪ (st.live.erase s).biUnion (footprint (image m.device))) := by
    rw [FileStore.used, Finset.erase_eq_of_notMem hnew, insert_empty_eq,
      ← Finset.union_assoc, ← Finset.insert_eq, Finset.insert_erase hs]
  have hdisjoint : Disjoint (insert s ∅)
      (st.held.erase s ∪ (st.live.erase s).biUnion (footprint (image m.device))) := by
    rw [insert_empty_eq, Finset.disjoint_singleton_left, Finset.mem_union, not_or]
    refine ⟨Finset.notMem_erase s _, fun hmem => ?_⟩
    obtain ⟨t, ht, hst⟩ := Finset.mem_biUnion.1 hmem
    exact Finset.disjoint_left.1 (h.laid.held (Finset.mem_of_mem_erase ht)) hst hs
  obtain ⟨journal, hrun⟩ := hx
  obtain ⟨t, hends⟩ := exists_ends hrun
  obtain ⟨dialogue, hp, hrecords⟩ := RegistryM.served_ends hc.table?_eq hends
  obtain ⟨rounds, hcalls⟩ := Store.createAt_inRounds hp
  rw [hcalls] at hrecords
  obtain ⟨hpointers, hnodup, -⟩ := h.pointers_of_rounds h' hrecords.calls_eq hused hdisjoint
    (Finset.notMem_empty s) hlive hothers
  rw [Finset.empty_union] at hpointers
  exact ⟨rounds, callsUntil_eq hrecords.calls_eq, hpointers, hnodup⟩

/-- A close after which the inode stays gives nothing back and writes nothing. -/
theorem attempt_close_stays (h : InUse (l.recorded U₀) m st) (hf : st.opened k = some f)
    (hstays : ¬ (f.openers = 1 ∧ f.removed = true)) :
    ∃ reg w, m.attempt (.close k) = (.ok ((), reg), w) ∧ reg.calls = m.calls ∧
      w.device = m.device ∧ w.writes = [] := by
  obtain ⟨a, registered, hc⟩ := h.consistent
  obtain ⟨⟨x, reg⟩, w, hrun, -, hdevice, hwrites⟩ :=
    (hc.close_stays_ensures (A := (· < n)) (G := fun _ _ => False) hf hstays).run_silent
      (w := ⟨m.device, #[]⟩) fun j hj => Nat.lt_of_lt_of_le hj h.size_le
  obtain ⟨t, hends⟩ := exists_ends hrun
  have hrecords := hc.close_records hf hends
  rw [if_neg hstays] at hrecords
  exact ⟨reg, w, hrun, hrecords.calls_eq.trans (List.append_nil _), hdevice, hwrites⟩

/-- The last close of a removed inode gives back what its record reaches, and its own sector. -/
theorem attempt_close_last (h : InUse (l.recorded U₀) m st) (hf : st.opened k = some f)
    (hlast : f.openers = 1) (hremoved : f.removed = true) :
    ∃ m' ids, m.Replies (.close k) () m' ∧
      m'.calls = m.calls ++ (Call.releases ids ++ [.released f.inode]) ∧ ids.Nodup ∧
      ids.toFinset = (recordAt (image m.device) f.inode).pointers (image m.device) := by
  obtain ⟨a, registered, hc⟩ := h.consistent
  have hlegal : st.Legal (.close k) := ⟨f, hf⟩
  obtain ⟨⟨⟩, m', hx, -, h'⟩ := h.attempt_ok hlegal rfl
  have hothers := h.others_of_on (o := .close k) hlegal (FileStore.inode?_eq hf) hx
  obtain ⟨journal, hrun⟩ := hx
  obtain ⟨t, hends⟩ := exists_ends hrun
  have hclose := hc.close_records hf hends
  rw [if_pos ⟨hlast, hremoved⟩] at hclose
  obtain ⟨ids, hrecords⟩ := hclose
  obtain ⟨U₁, hreleases, hself, hused⟩ :=
    Call.moves_append.1 (h.moves_of_calls_eq h' hrecords.calls_eq)
  obtain ⟨rfl, hnodup, hsubset⟩ := hreleases.releases
  refine ⟨m', ids, ⟨journal, hrun⟩, hrecords.calls_eq, hnodup, ?_⟩
  have hafter : st.after (.close k) () = _ := FileStore.closed_eq hf
  have hnot : f.inode ∉ (st.after (.close k) ()).live := by
    rw [hafter, if_pos hlast, if_pos hremoved]
    exact Finset.notMem_erase f.inode st.live
  have hrest : st.others (image m.device) f.inode =
      (st.used (image m.device) \ ids.toFinset).erase f.inode := by
    rw [← hothers, ← FileStore.used_eq_others hnot]
    exact hused
  obtain ⟨hmem, hids⟩ := Finset.mem_sdiff.1 hself
  have hfootprint : footprint (image m.device) f.inode = insert f.inode ids.toFinset := by
    have hcancel : footprint (image m.device) f.inode =
        st.used (image m.device) \ st.others (image m.device) f.inode := by
      rw [FileStore.used_eq_union (hc.live hf), Finset.union_sdiff_right,
        Finset.sdiff_eq_self_of_disjoint (hc.laid.disjoint_others (hc.live hf))]
    rw [hcancel, hrest, Finset.sdiff_erase hmem, Finset.sdiff_sdiff_eq_self hsubset]
  rw [← Finset.erase_insert hids, ← hfootprint, footprint,
    Finset.erase_insert (hc.represents hf).stored.apart]

/-- An inode that is not open gets a handle that there has never been. -/
theorem opens_new (h : InUse (l.recorded U₀) m st) (hlegal : st.Legal (.openAt s))
    (hx : m.Replies (.openAt s) (.ok k) m') (hclosed : st.opened k = none) :
    k = ⟨m.registry.handles.size⟩ := by
  obtain ⟨a, registered, hc⟩ := h.consistent
  obtain ⟨journal, hrun⟩ := hx
  obtain ⟨⟨-, hfresh⟩, -⟩ := (hc.within hlegal
    (hc.openAt_ensures (G := fun _ _ => True) hlegal)).of_run
    (w := ⟨m.device, #[]⟩) (fun j hj => Nat.lt_of_lt_of_le hj h.size_le) hrun
  exact hfresh k rfl hclosed

theorem index_lt (h : InUse (l.recorded U₀) m st) (hf : st.opened k = some f) :
    k.index < m.registry.handles.size := by
  obtain ⟨a, registered, hc⟩ := h.consistent
  exact Registry.lt_size_of_handle? (hc.handle hf)

end InUse

/-- The life of the inode on sector `s`, from its creation on, amid whatever else is done. Of the
calls to the allocator, `costs` has those made by each operation on the inode, its creation
first. -/
inductive Lives (s : SectorId) (m₀ : Machine δ (Recorded σ)) (st₀ : FileStore) :
    History → List (List Call) → Machine δ (Recorded σ) → FileStore → Prop
  | created {m : Machine δ (Recorded σ)} {length : Nat} {kind : InodeKind} :
    s ∈ st₀.held → m₀.Replies (.createAt s length kind) (.ok ()) m →
      Lives s m₀ st₀ [] [m₀.callsUntil m] m (st₀.after (.createAt s length kind) (.ok ()))
  | used {history : History} {costs : List (List Call)} {m m' : Machine δ (Recorded σ)}
    {st : FileStore} {o : Operation} {x : o.Reply} :
    Lives s m₀ st₀ history costs m st → st.Legal o → st.On s o → m.Replies o x m' →
      s ∈ (st.after o x).live →
      Lives s m₀ st₀ (history ++ [⟨o, x⟩]) (costs ++ [m.callsUntil m']) m' (st.after o x)
  | spared {history : History} {costs : List (List Call)} {m m' : Machine δ (Recorded σ)}
    {st : FileStore} {o : Operation} {x : o.Reply} :
    Lives s m₀ st₀ history costs m st → st.Legal o → ¬ st.On s o → m.Replies o x m' →
      Lives s m₀ st₀ (history ++ [⟨o, x⟩]) costs m' (st.after o x)

namespace Lives

variable {history : History} {costs : List (List Call)}

/-- The state of a machine in a life. -/
theorem inUse (h₀ : InUse (l.recorded U₀) m₀ st₀) (h : Lives s m₀ st₀ history costs m st) :
    InUse (l.recorded U₀) m st := by
  induction h with
  | created hs hx => exact (h₀.after (o := .createAt s _ _) hs hx).2
  | used _ hlegal _ hx _ ih => exact (ih.after hlegal hx).2
  | spared _ hlegal _ hx ih => exact (ih.after hlegal hx).2

/-- An operation on another inode, or on none, leaves this one alone. -/
theorem spares (h : InUse (l.recorded U₀) m st) (hlive : s ∈ st.live) (hlegal : st.Legal o)
    (hon : ¬ st.On s o) {x : o.Reply} (hx : m.Replies o x m') :
    s ∈ (st.after o x).live ∧ (recordAt (image m'.device) s).pointers (image m'.device) =
      (recordAt (image m.device) s).pointers (image m.device) := by
  obtain ⟨-, -, hspares⟩ := h.step hlegal hx
  have hagree := hspares.mono
    (FileStore.footprint_subset_spared hlive (FileStore.subject_ne hon))
  have hrepresents := h.laid.represents hlive
  have hfootprint := hrepresents.footprint_congr hagree
  refine ⟨FileStore.mem_live_after hon hlive x, ?_⟩
  rw [← Finset.erase_insert hrepresents.stored.apart,
    ← Finset.erase_insert (hrepresents.congr hagree).stored.apart]
  exact congrArg (Finset.erase · s) hfootprint

/-- The sectors of an inode are those kept by what has been done with it, each once. -/
theorem account (h₀ : InUse (l.recorded U₀) m₀ st₀) (h : Lives s m₀ st₀ history costs m st) :
    s ∈ st.live ∧ ∃ rounds : List (List Round), costs = rounds.map (List.flatMap Round.calls) ∧
      (rounds.flatten.flatMap Round.kept).Nodup ∧
      (rounds.flatten.flatMap Round.kept).toFinset =
        (recordAt (image m.device) s).pointers (image m.device) := by
  induction h with
  | created hs hx =>
    obtain ⟨rounds, hcalls, hpointers, hnodup⟩ := h₀.step_created hs hx
    refine ⟨Finset.mem_insert_self s _, [rounds], ?_, ?_, ?_⟩
    · rw [hcalls, List.map_singleton]
    · rwa [List.flatten_singleton]
    · rw [hpointers, List.flatten_singleton]
  | used h hlegal hon hx hlive' ih =>
    obtain ⟨hlive, rounds, rfl, hnodup, hset⟩ := ih
    obtain ⟨new, hcalls, hpointers, hnew, hdisjoint⟩ :=
      (h.inUse h₀).step_on hlegal hon hx hlive hlive'
    refine ⟨hlive', rounds ++ [new], ?_, ?_, ?_⟩
    · rw [hcalls, List.map_append, List.map_singleton]
    · rw [List.flatten_append, List.flatten_singleton, List.flatMap_append]
      refine List.nodup_append'.2 ⟨hnodup, hnew, ?_⟩
      rw [← hset] at hdisjoint
      intro x hx hx'
      exact Finset.disjoint_left.1 hdisjoint (List.mem_toFinset.2 hx') (List.mem_toFinset.2 hx)
    · rw [List.flatten_append, List.flatten_singleton, List.flatMap_append, List.toFinset_append,
        hset, hpointers]
  | spared h hlegal hon hx ih =>
    obtain ⟨hlive, rounds, hcosts, hnodup, hset⟩ := ih
    obtain ⟨hlive', hpointers⟩ := spares (h.inUse h₀) hlive hlegal hon hx
    exact ⟨hlive', rounds, hcosts, hnodup, hset.trans hpointers.symm⟩

theorem mem_removals {x : o.Reply} :
    (⟨.remove k, ()⟩ : Σ o : Operation, o.Reply) ∈ history ++ [⟨o, x⟩] ↔
      ⟨.remove k, ()⟩ ∈ history ∨ o = .remove k := by
  rw [List.mem_append, List.mem_singleton]
  refine or_congr_right ⟨fun he => (congrArg Sigma.fst he).symm, fun he => ?_⟩
  subst he
  rfl

/-- Handles that have been used stay in the registry, so a new one has never been removed. -/
theorem removed_step (h : InUse (l.recorded U₀) m st) (hlegal : st.Legal o) {x : o.Reply}
    (hx : m.Replies o x m')
    (hindex : ∀ k, ⟨.remove k, ()⟩ ∈ history → k.index < m.registry.handles.size)
    (hremoved : ∀ k f, st.opened k = some f → f.inode = s →
      (f.removed = true ↔ ⟨.remove k, ()⟩ ∈ history)) :
    (∀ k, ⟨.remove k, ()⟩ ∈ history ++ [⟨o, x⟩] → k.index < m'.registry.handles.size) ∧
      ∀ k f, (st.after o x).opened k = some f → f.inode = s →
        (f.removed = true ↔ ⟨.remove k, ()⟩ ∈ history ++ [⟨o, x⟩]) := by
  obtain ⟨-, hsize⟩ := h.records hlegal hx
  refine ⟨fun k hk => Nat.lt_of_lt_of_le ?_ hsize, fun k f hf hfs => ?_⟩
  · rcases mem_removals.1 hk with hk | rfl
    · exact hindex k hk
    · obtain ⟨f, hf⟩ := hlegal
      exact h.index_lt hf
  · rw [mem_removals]
    rcases FileStore.opened_after x hf with ⟨g, hg, hgf, hiff⟩ | ⟨hclosed, hnew, hopens⟩
    · rw [hiff, hremoved k g hg (hgf.trans hfs)]
    · cases hopens
      have hk := h.opens_new hlegal hx hclosed
      subst hk
      rw [hnew]
      refine iff_of_false Bool.false_ne_true ?_
      rintro (hk | ho)
      · exact Nat.lt_irrefl _ (hindex _ hk)
      · cases ho

/-- A handle of the inode is marked as removed if it has been removed, ever. -/
theorem removed_iff (h₀ : InUse (l.recorded U₀) m₀ st₀) (h : Lives s m₀ st₀ history costs m st) :
    (∀ k, ⟨.remove k, ()⟩ ∈ history → k.index < m.registry.handles.size) ∧
      ∀ k f, st.opened k = some f → f.inode = s →
        (f.removed = true ↔ ⟨.remove k, ()⟩ ∈ history) := by
  induction h with
  | created hs hx =>
    refine ⟨nofun, fun k f hf hfs => ?_⟩
    -- The sector was not that of an inode, so nobody can have had one open there.
    obtain ⟨⟨-, hnew⟩, -⟩ := h₀.after (o := .createAt s _ _) hs hx
    obtain ⟨a, registered, hc⟩ := h₀.consistent
    exact absurd (hfs ▸ hc.live hf) hnew
  | used h hlegal hon hx hlive ih => exact removed_step (h.inUse h₀) hlegal hx ih.1 ih.2
  | spared h hlegal hon hx ih => exact removed_step (h.inUse h₀) hlegal hx ih.1 ih.2

end Lives

variable {a : σ} {d : δ} {held : Finset SectorId} {history : History} {costs : List (List Call)}

/-- Over any allocator, which may refuse at any call: while an inode lives, each operation on it
asks for sectors in rounds, a round that is refused gives back what it got, and what the others got
is what the record reaches, each sector once. The last close of an inode that was removed by the
handle gives back just these sectors, once each, and the record sector after them; any other close
gives nothing back and writes nothing. -/
theorem Lives.reclaimed_once (hsize : n ≤ size d) (hl : l.lends a (image d) held)
    (h₀ : Reaches ⟨d, .over ⟨a, []⟩⟩ (.unused held) m₀ st₀)
    (h : Lives s m₀ st₀ history costs m st) :
    ∃ rounds : List (List Round), costs = rounds.map (List.flatMap Round.calls) ∧
      (rounds.flatten.flatMap Round.kept).Nodup ∧
      (rounds.flatten.flatMap Round.kept).toFinset =
        (recordAt (image m.device) s).pointers (image m.device) ∧
      (Call.handedOut costs.flatten).Perm
        (rounds.flatten.flatMap Round.kept ++ Call.givenBack costs.flatten) ∧
      ∀ k f, st.opened k = some f → f.inode = s →
        (f.openers = 1 → ⟨.remove k, ()⟩ ∈ history →
          ∃ m' ids, m.Replies (.close k) () m' ∧
            ids.Perm (rounds.flatten.flatMap Round.kept) ∧
            m'.calls = m.calls ++ (Call.releases ids ++ [.released s])) ∧
        (¬ (f.openers = 1 ∧ ⟨.remove k, ()⟩ ∈ history) →
          ∃ reg w, m.attempt (.close k) = (.ok ((), reg), w) ∧ reg.calls = m.calls ∧
            w.device = m.device ∧ w.writes = []) := by
  have hempty : InUse (l.recorded held) ⟨d, .over ⟨a, []⟩⟩ (.unused held) :=
    inUse_unused hsize ⟨hl, rfl⟩
  have hstart := hempty.reaches h₀
  have hinUse := h.inUse hstart
  obtain ⟨-, rounds, hcosts, hnodup, hset⟩ := h.account hstart
  obtain ⟨-, hremoved⟩ := h.removed_iff hstart
  have hperm := Round.handedOut_perm rounds.flatten
  rw [← Round.flatten_map_calls, ← hcosts] at hperm
  refine ⟨rounds, hcosts, hnodup, hset, hperm, fun k f hf hfs =>
    ⟨fun hlast hk => ?_, fun hstays => ?_⟩⟩
  · obtain ⟨m', ids, hx, hcalls, hids, hreached⟩ :=
      hinUse.attempt_close_last hf hlast ((hremoved k f hf hfs).2 hk)
    subst hfs
    refine ⟨m', ids, hx, ?_, hcalls⟩
    exact List.perm_of_nodup_nodup_toFinset_eq hids hnodup (hreached.trans hset.symm)
  · rw [← hremoved k f hf hfs] at hstays
    exact hinUse.attempt_close_stays hf hstays

/-- An inode of three blocks is created over a free map, opened, and removed. -/
theorem reclaimed_once_of_three : ∃ (hm : (Volume.mapOf 100).Fits 100) (d : SectorArray)
    (held : Finset SectorId) (s : SectorId) (k : HandleId) (costs : List (List Call))
    (m m' : Machine SectorArray (Recorded FreeMap)) (st : FileStore) (ids : List SectorId),
    (FreeMap.lender hm).lends (Volume.mapOf 100) (image d) held ∧
      Lives s ⟨d, .over ⟨Volume.mapOf 100, []⟩⟩ (.unused held)
        [⟨.openAt s, .ok k⟩, ⟨.remove k, ()⟩] costs m st ∧
      m.Replies (.close k) () m' ∧ ids.length = 3 ∧
      m'.calls = m.calls ++ (Call.releases ids ++ [.released s]) := by
  obtain ⟨hm, d, held, s, hsize, hl, hs, hcard⟩ := exists_lent 100 (by decide)
  have hempty : InUse ((FreeMap.lender hm).recorded held)
      ⟨d, .over ⟨Volume.mapOf 100, []⟩⟩ (.unused held) := inUse_unused hsize ⟨hl, rfl⟩
  have hroom : (Volume.mapOf 100).reserved + held.card + totalSectors (dataBlocks 1500) ≤
      (Volume.mapOf 100).capacity := by
    rw [hcard]
    decide
  have hserve : ((Store.createAt s 1500 .file).serve (⟨Volume.mapOf 100, []⟩ :
      Recorded FreeMap)).Ensures (· < 100) (fun _ _ => True) (fun x _ => x.1 = .ok ()) (image d) :=
    Recorded.serve_ensures (Q := fun (x : Except VolumeError Unit × FreeMap) _ => x.1 = .ok ())
      ((FreeMap.createAt_ensures .file hm hl.2 hs (by decide) hroom).imp fun _ _ hx =>
        congrArg Prod.fst hx.1)
  obtain ⟨m₁, hm₁⟩ := hempty.createAt_replies_of_serve rfl hserve
  have hcreated : Lives s _ (.unused held) _ _ _ _ := .created hs hm₁
  have h₁ := hcreated.inUse hempty
  have hlive : s ∈ ((FileStore.unused held).after (.createAt s 1500 .file) (.ok ())).live :=
    Finset.mem_insert_self s ∅
  obtain ⟨x, m₂, hm₂, hadmits, h₂⟩ := h₁.attempt_ok (o := .openAt s) hlive rfl
  cases x with
  | error e => exact hadmits.elim
  | ok k =>
    have hopened := hcreated.used (o := .openAt s) hlive rfl hm₂ hlive
    have hf : (((FileStore.unused held).after (.createAt s 1500 .file) (.ok ())).after (.openAt s)
        (.ok k)).opened k = some ⟨s, 1, false, 0⟩ := FileStore.opened_setOpened_self _ k _
    obtain ⟨⟨⟩, m₃, hm₃, -, h₃⟩ := h₂.attempt_ok (o := .remove k) ⟨_, hf⟩ rfl
    have hremoved := hopened.used (o := .remove k) ⟨_, hf⟩ (FileStore.inode?_eq hf) hm₃ hlive
    have hf' := FileStore.opened_remove_self hf
    obtain ⟨rounds, -, hnodup, hset, -, hclose⟩ := hremoved.reclaimed_once hsize hl .refl
    have hmem : (⟨.remove k, ()⟩ : Σ o : Operation, o.Reply) ∈
        [⟨.openAt s, .ok k⟩, ⟨.remove k, ()⟩] := List.mem_cons_of_mem _ List.mem_cons_self
    obtain ⟨m', ids, hm', hids, hcalls⟩ := (hclose k _ hf' rfl).1 rfl hmem
    refine ⟨hm, d, held, s, k, _, m₃, m', _, ids, hl, hremoved, hm', ?_, hcalls⟩
    have hrepresents := h₃.laid.represents (s := s) hlive
    have hbytes : ((((FileStore.unused held).after (.createAt s 1500 .file) (.ok ())).after
        (.openAt s) (.ok k)).after (.remove k) ()).file s = .blank .file 1500 :=
      FileStore.file_setFile_self _ s _
    have hthree : totalSectors (dataBlocks 1500) = 3 := by decide
    rw [hids.length_eq, ← List.toFinset_card_of_nodup hnodup, hset, hrepresents.stored.card,
      hrepresents.size]
    rw [hbytes, File.blank, Array.size_replicate, hthree]

end Machine

end InodeVolume

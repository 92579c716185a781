import InodeVolume.Proofs.FileStore.Layout

/-!
What an operation leaves alone. Of the sectors in use it changes at most those of the inode that it
is on and a sector that its caller gives up, so every other inode stays as it is, byte for byte.
-/
namespace InodeVolume

/-- The handle whose inode an operation removes. -/
def Operation.removes : Operation → Option HandleId
  | .remove h => some h
  | _ => none

theorem Operation.ne_remove {o : Operation} (h : o.removes = none) (k : HandleId) :
    o ≠ .remove k := by
  rintro rfl
  cases h

namespace FileStore

variable {st : FileStore} {d d' : Image} {o : Operation} {s t : SectorId} {h : HandleId}
  {f : OpenFile}

/-- The inode behind a handle. -/
def inode? (st : FileStore) (h : HandleId) : Option SectorId := (st.opened h).map OpenFile.inode

def IsOpen (st : FileStore) (s : SectorId) : Prop := ∃ h f, st.opened h = some f ∧ f.inode = s

/-- The inode whose sectors an operation may change. -/
def subject (st : FileStore) : Operation → Option SectorId
  | .close h => st.inode? h
  | .writeAt h _ _ => st.inode? h
  | .extend h _ => st.inode? h
  | _ => none

/-- The sectors in use, but for those of an inode. -/
def besides (st : FileStore) (d : Image) : Option SectorId → Finset SectorId
  | some s => st.others d s
  | none => st.used d

/-- The sectors in use that an operation leaves alone. -/
def spared (st : FileStore) (d : Image) : Operation → Finset SectorId
  | .createAt s _ _ => st.held.erase s ∪ st.live.biUnion (footprint d)
  | .release s => st.held.erase s ∪ st.live.biUnion (footprint d)
  | o => st.besides d (st.subject o)

theorem inode?_eq (hf : st.opened h = some f) : st.inode? h = some f.inode := by
  rw [inode?, hf, Option.map_some]

/-- All inodes are spared but the one that the operation is on. -/
theorem footprint_subset_spared (ht : t ∈ st.live) (hsubject : st.subject o ≠ some t) :
    footprint d t ⊆ st.spared d o := by
  have hlive : footprint d t ⊆ st.live.biUnion (footprint d) := by
    intro x hx
    exact Finset.mem_biUnion.2 ⟨t, ht, hx⟩
  have hbesides : footprint d t ⊆ st.besides d (st.subject o) := by
    cases hs : st.subject o with
    | none => exact hlive.trans Finset.subset_union_right
    | some s =>
      refine footprint_subset_others ht ?_
      intro hts
      rw [hts] at hsubject
      exact hsubject hs
  cases o with
  | createAt s length kind => exact hlive.trans Finset.subset_union_right
  | release s => exact hlive.trans Finset.subset_union_right
  | _ => exact hbesides

/-- The operation is on inode `s`. -/
def On (st : FileStore) (s : SectorId) : Operation → Prop
  | .openAt t => t = s
  | .reopen h => st.inode? h = some s
  | .close h => st.inode? h = some s
  | .remove h => st.inode? h = some s
  | .denyWrite h => st.inode? h = some s
  | .allowWrite h => st.inode? h = some s
  | .sectorOf h _ => st.inode? h = some s
  | .readAt h _ _ => st.inode? h = some s
  | .writeAt h _ _ => st.inode? h = some s
  | .extend h _ => st.inode? h = some s
  | .status h => st.inode? h = some s
  | _ => False

theorem others_subset_used : st.others d s ⊆ st.used d :=
  Finset.union_subset_union_right (Finset.biUnion_subset_biUnion_of_subset_left _
    (Finset.erase_subset s st.live))

/-- An operation on an inode spares the sectors of all others. -/
theorem others_subset_spared (hon : st.On s o) : st.others d s ⊆ st.spared d o := by
  have besides {k : HandleId} (hk : st.inode? k = some s) :
      st.others d s ⊆ st.besides d (st.inode? k) := by
    rw [hk, FileStore.besides]
  cases o with
  | close k => exact besides hon
  | writeAt k offset buffer => exact besides hon
  | extend k target => exact besides hon
  | create length kind => exact hon.elim
  | createAt t length kind => exact hon.elim
  | allocate => exact hon.elim
  | allocateMany count => exact hon.elim
  | release t => exact hon.elim
  | _ => exact others_subset_used

/-- What an operation that made a reply does to the inodes that there are. -/
inductive Repopulates (st : FileStore) (o : Operation) (live : Finset SectorId) : Prop
  | same : live = st.live → Repopulates st o live
  | made {s : SectorId} : (∀ t, ¬ st.On t o) → live = insert s st.live → Repopulates st o live
  | gone {h : HandleId} {f : OpenFile} : o = .close h → st.opened h = some f →
    live = st.live.erase f.inode → Repopulates st o live

theorem repopulates (st : FileStore) (o : Operation) (x : o.Reply) :
    Repopulates st o (st.after o x).live := by
  cases o with
  | create length kind =>
    cases x with
    | error e => exact .same rfl
    | ok s => exact .made (fun _ hon => hon) rfl
  | createAt s length kind =>
    cases x with
    | error e => exact .same rfl
    | ok u => exact .made (fun _ hon => hon) rfl
  | openAt s =>
    cases x with
    | error e => exact .same rfl
    | ok h =>
      obtain ⟨f, hafter⟩ := st.exists_reopened_eq h s
      refine .same ?_
      rw [FileStore.after, hafter]
      rfl
  | close h =>
    have hafter : st.after (.close h) x = st.closed h := rfl
    rw [hafter]
    cases hf : st.opened h with
    | none =>
      refine .same ?_
      rw [closed, hf]
    | some f =>
      rw [closed_eq hf]
      split
      · split
        · exact .gone rfl hf rfl
        · exact .same rfl
      · exact .same rfl
  | writeAt h offset buffer =>
    obtain ⟨file, hafter⟩ := st.exists_after_writeAt_eq h offset buffer x
    exact .same (by rw [hafter])
  | extend h target =>
    obtain ⟨file, hafter⟩ := st.exists_after_extend_eq h target x
    exact .same (by rw [hafter])
  | allocate =>
    cases x with
    | none => exact .same rfl
    | some s => exact .same rfl
  | allocateMany count =>
    cases x with
    | error e => exact .same rfl
    | ok ids => exact .same rfl
  | _ => exact .same rfl

/-- No other inode comes or goes. -/
theorem live_erase_after (hon : st.On s o) (x : o.Reply) :
    (st.after o x).live.erase s = st.live.erase s := by
  cases st.repopulates o x with
  | same hlive => rw [hlive]
  | made hnew _ => exact (hnew s hon).elim
  | gone ho hf hlive =>
    subst ho
    have hinode : some _ = some s := (inode?_eq hf).symm.trans hon
    rw [hlive, Option.some.inj hinode, Finset.erase_idem]

/-- Callers hold what they held. -/
theorem held_after (hon : st.On s o) (x : o.Reply) : (st.after o x).held = st.held := by
  cases o with
  | openAt t =>
    cases x with
    | error e => rfl
    | ok k =>
      obtain ⟨f, hafter⟩ := st.exists_reopened_eq k t
      rw [FileStore.after, hafter]
      rfl
  | close k =>
    obtain ⟨live, opened, -, hafter⟩ := st.exists_closed_eq k
    rw [FileStore.after, hafter]
  | writeAt k offset buffer =>
    obtain ⟨file, hafter⟩ := st.exists_after_writeAt_eq k offset buffer x
    rw [hafter]
  | extend k target =>
    obtain ⟨file, hafter⟩ := st.exists_after_extend_eq k target x
    rw [hafter]
  | create length kind => exact hon.elim
  | createAt t length kind => exact hon.elim
  | allocate => exact hon.elim
  | allocateMany count => exact hon.elim
  | release t => exact hon.elim
  | _ => rfl

theorem subject_ne (hon : ¬ st.On s o) : st.subject o ≠ some s := by
  cases o with
  | close k => exact hon
  | writeAt k offset buffer => exact hon
  | extend k target => exact hon
  | _ => exact Option.some_ne_none s ∘ Eq.symm

/-- An inode does not go by what is done with others. -/
theorem mem_live_after (hon : ¬ st.On s o) (hs : s ∈ st.live) (x : o.Reply) :
    s ∈ (st.after o x).live := by
  cases st.repopulates o x with
  | same hlive => rwa [hlive]
  | made _ hlive =>
    rw [hlive]
    exact Finset.mem_insert_of_mem hs
  | gone ho hf hlive =>
    subst ho
    rw [hlive]
    refine Finset.mem_erase.2 ⟨fun hsf => hon ?_, hs⟩
    exact (inode?_eq hf).trans (congrArg some hsf.symm)

theorem opened_modifyOpened {k : HandleId} (change : OpenFile → OpenFile) :
    (st.modifyOpened h change).opened k =
      (st.opened k).map fun g => if k = h then change g else g := by
  by_cases hk : k = h
  · subst hk
    rw [modifyOpened, opened_setOpened_self]
    exact congrArg (Option.map · _) (funext fun g => (if_pos rfl).symm)
  · rw [modifyOpened, st.opened_setOpened_of_ne hk]
    simp only [if_neg hk, Option.map_id']

/-- What an operation that made a reply does to the handles that are open. -/
inductive Rehandles (st : FileStore) (o : Operation) (x : o.Reply)
    (opened : HandleId → Option OpenFile) : Prop
  | same : o.removes = none → opened = st.opened → Rehandles st o x opened
  | modified (h : HandleId) (change : OpenFile → OpenFile) : (∀ k, o = .remove k → k = h) →
    (∀ g, (change g).inode = g.inode ∧
      ((change g).removed = true ↔ g.removed = true ∨ o = .remove h)) →
    opened = (st.modifyOpened h change).opened → Rehandles st o x opened
  | gone {h : HandleId} {f : OpenFile} : o = .close h → st.opened h = some f → f.openers = 1 →
    opened = (st.setOpened h none).opened → Rehandles st o x opened
  | new {h : HandleId} {s : SectorId} : st.opened h = none →
    (⟨o, x⟩ : Σ o : Operation, o.Reply) = ⟨.openAt s, .ok h⟩ →
    opened = (st.setOpened h (some ⟨s, 1, false, 0⟩)).opened → Rehandles st o x opened

theorem rehandles (st : FileStore) (o : Operation) (x : o.Reply) :
    Rehandles st o x (st.after o x).opened := by
  have keeps (h : HandleId) (change : OpenFile → OpenFile) (ho : o.removes = none)
      (hchange : ∀ g, (change g).inode = g.inode ∧ (change g).removed = g.removed)
      (hopened : (st.after o x).opened = (st.modifyOpened h change).opened) :
      Rehandles st o x (st.after o x).opened := by
    have hne := Operation.ne_remove ho
    refine .modified h change (fun k hk => (hne k hk).elim) (fun g => ⟨(hchange g).1, ?_⟩) hopened
    rw [(hchange g).2]
    exact (or_iff_left (hne h)).symm
  cases o with
  | openAt s =>
    cases x with
    | error e => exact .same rfl rfl
    | ok h =>
      have hafter : st.after (.openAt s) (.ok h) = st.reopened h s := rfl
      cases hh : st.opened h with
      | some g =>
        refine keeps h (fun g => { g with openers := g.openers + 1 }) rfl (fun _ => ⟨rfl, rfl⟩) ?_
        rw [hafter, reopened, hh, modifyOpened_eq hh]
      | none =>
        refine .new hh rfl ?_
        rw [hafter, reopened, hh]
  | close h =>
    have hafter : st.after (.close h) x = st.closed h := rfl
    cases hh : st.opened h with
    | none =>
      refine .same rfl ?_
      rw [hafter, closed, hh]
    | some f =>
      by_cases hlast : f.openers = 1
      · refine .gone rfl hh hlast ?_
        rw [hafter, closed_eq hh, if_pos hlast]
        split
        · rfl
        · rfl
      · refine keeps h (fun g => { g with openers := g.openers - 1 }) rfl (fun _ => ⟨rfl, rfl⟩) ?_
        rw [hafter, closed_eq hh, if_neg hlast, modifyOpened_eq hh]
  | remove h =>
    refine .modified h (fun g => { g with removed := true })
      (fun k hk => (Operation.remove.inj hk).symm) (fun g => ⟨rfl, ?_⟩) rfl
    exact iff_of_true rfl (.inr rfl)
  | reopen h =>
    exact keeps h (fun g => { g with openers := g.openers + 1 }) rfl (fun _ => ⟨rfl, rfl⟩) rfl
  | denyWrite h =>
    exact keeps h (fun g => { g with denials := g.denials + 1 }) rfl (fun _ => ⟨rfl, rfl⟩) rfl
  | allowWrite h =>
    exact keeps h (fun g => { g with denials := g.denials - 1 }) rfl (fun _ => ⟨rfl, rfl⟩) rfl
  | writeAt h offset buffer =>
    obtain ⟨file, hafter⟩ := st.exists_after_writeAt_eq h offset buffer x
    exact .same rfl (by rw [hafter])
  | extend h target =>
    obtain ⟨file, hafter⟩ := st.exists_after_extend_eq h target x
    exact .same rfl (by rw [hafter])
  | create length kind =>
    cases x with
    | error e => exact .same rfl rfl
    | ok s => exact .same rfl rfl
  | createAt s length kind =>
    cases x with
    | error e => exact .same rfl rfl
    | ok u => exact .same rfl rfl
  | allocate =>
    cases x with
    | none => exact .same rfl rfl
    | some s => exact .same rfl rfl
  | allocateMany count =>
    cases x with
    | error e => exact .same rfl rfl
    | ok ids => exact .same rfl rfl
  | _ => exact .same rfl rfl

/-- Where an open handle comes from: it was open before, and is marked as removed if it was or has
just been; or its inode has just been opened. -/
theorem opened_after {k : HandleId} (x : o.Reply) (hf : (st.after o x).opened k = some f) :
    (∃ g, st.opened k = some g ∧ g.inode = f.inode ∧
      (f.removed = true ↔ g.removed = true ∨ o = .remove k)) ∨
    st.opened k = none ∧ f.removed = false ∧
      (⟨o, x⟩ : Σ o : Operation, o.Reply) = ⟨.openAt f.inode, .ok k⟩ := by
  cases st.rehandles o x with
  | same ho hopened =>
    rw [hopened] at hf
    exact .inl ⟨f, hf, rfl, (or_iff_left (Operation.ne_remove ho k)).symm⟩
  | modified h change ho hchange hopened =>
    rw [hopened, opened_modifyOpened, Option.map_eq_some_iff] at hf
    obtain ⟨g, hg, rfl⟩ := hf
    refine .inl ⟨g, hg, ?_⟩
    by_cases hk : k = h
    · subst hk
      rw [if_pos rfl]
      exact ⟨(hchange g).1.symm, (hchange g).2⟩
    · rw [if_neg hk]
      exact ⟨rfl, (or_iff_left fun hremove => hk (ho k hremove)).symm⟩
  | gone ho _ _ hopened =>
    rw [hopened] at hf
    subst ho
    have hf' := (opened_setOpened_none.1 hf).2
    exact .inl ⟨f, hf', rfl, (or_iff_left (Operation.ne_remove rfl k)).symm⟩
  | @new h s hh hx hopened =>
    rw [hopened] at hf
    rcases opened_setOpened_some.1 hf with ⟨rfl, rfl⟩ | ⟨-, hf⟩
    · exact .inr ⟨hh, rfl, hx⟩
    · have ho : o ≠ .remove k := by
        rintro rfl
        cases hx
      exact .inl ⟨f, hf, rfl, (or_iff_left ho).symm⟩

/-- An open handle stays with its inode until the last close. -/
theorem opened_after_or_last {k : HandleId} (x : o.Reply) (hf : st.opened k = some f) :
    (∃ g, (st.after o x).opened k = some g ∧ g.inode = f.inode) ∨
      o = .close k ∧ f.openers = 1 := by
  cases st.rehandles o x with
  | same _ hopened =>
    rw [hopened]
    exact .inl ⟨f, hf, rfl⟩
  | modified h change _ hchange hopened =>
    rw [hopened, opened_modifyOpened, hf, Option.map_some]
    refine .inl ⟨_, rfl, ?_⟩
    split
    · exact (hchange f).1
    · rfl
  | @gone h g ho hg hlast hopened =>
    by_cases hk : k = h
    · subst hk
      rw [hf, Option.some.injEq] at hg
      subst hg
      exact .inr ⟨ho, hlast⟩
    · rw [hopened]
      exact .inl ⟨f, opened_setOpened_none.2 ⟨hk, hf⟩, rfl⟩
  | @new h s hh _ hopened =>
    have hk : k ≠ h := by
      rintro rfl
      rw [hf] at hh
      exact Option.some_ne_none f hh
    rw [hopened, st.opened_setOpened_of_ne hk]
    exact .inl ⟨f, hf, rfl⟩

/-- Who does something with an inode opens it, or has it open. -/
theorem eq_or_isOpen_of_on (hon : st.On s o) : o = .openAt s ∨ st.IsOpen s := by
  have isOpen {k : HandleId} (hk : st.inode? k = some s) : st.IsOpen s :=
    ⟨k, Option.map_eq_some_iff.1 hk⟩
  cases o with
  | openAt t => exact .inl (congrArg Operation.openAt hon)
  | create length kind => exact hon.elim
  | createAt t length kind => exact hon.elim
  | allocate => exact hon.elim
  | allocateMany count => exact hon.elim
  | release t => exact hon.elim
  | _ => exact .inr (isOpen hon)

/-- The handle that an opener gets is one of the inode. -/
theorem reopened_eq {k : HandleId} (hadmits : st.Admits (.openAt s) (.ok k)) :
    ∃ f, f.inode = s ∧ st.reopened k s = st.setOpened k (some f) := by
  rw [Admits] at hadmits
  rw [reopened]
  cases hk : st.opened k with
  | none => exact ⟨⟨s, 1, false, 0⟩, rfl, rfl⟩
  | some f =>
    rw [hk] at hadmits
    exact ⟨{ f with openers := f.openers + 1 }, hadmits, rfl⟩

theorem isOpen_after_openAt {x : Except VolumeError HandleId} (hx : st.Admits (.openAt s) x) :
    (st.after (.openAt s) x).IsOpen s := by
  cases x with
  | error e => exact hx.elim
  | ok k =>
    obtain ⟨f, hf, heq⟩ := reopened_eq hx
    have hafter : st.after (.openAt s) (.ok k) = st.reopened k s := rfl
    rw [hafter, heq]
    exact ⟨k, f, st.opened_setOpened_self k _, hf⟩

theorem isOpen_of_after {x : o.Reply} (h : (st.after o x).IsOpen s) (ho : o ≠ .openAt s) :
    st.IsOpen s := by
  obtain ⟨k, f, hk, rfl⟩ := h
  rcases opened_after x hk with ⟨g, hg, hgf, -⟩ | ⟨-, -, hopens⟩
  · exact ⟨k, g, hg, hgf⟩
  · exact absurd (congrArg Sigma.fst hopens) ho

/-- An inode that is not marked as removed stays with its last close. -/
theorem after_last_close (hf : st.opened h = some f) (hopeners : f.openers = 1)
    (hremoved : f.removed = false) : st.after (.close h) () = st.setOpened h none := by
  have hafter : st.after (.close h) () = _ := closed_eq hf
  rw [hafter, if_pos hopeners, hremoved, if_neg Bool.false_ne_true]

end FileStore

/-- Where the other inodes stay as they are, so does what is in use besides this one. -/
theorem Laid.others_eq {st st' : FileStore} {d d' : Image} {s : SectorId} (h : Laid d st)
    (hlive : st'.live.erase s = st.live.erase s)
    (hd : Agree ((st.live.erase s).biUnion (footprint d)) d d') :
    st'.others d' s = st'.held ∪ (st.live.erase s).biUnion (footprint d) := by
  rw [FileStore.others, hlive]
  refine congrArg (st'.held ∪ ·) (Finset.biUnion_congr rfl fun t ht => ?_)
  refine (h.represents (Finset.mem_of_mem_erase ht)).footprint_congr (hd.mono fun x hx => ?_)
  exact Finset.mem_biUnion.2 ⟨t, ht, hx⟩

end InodeVolume

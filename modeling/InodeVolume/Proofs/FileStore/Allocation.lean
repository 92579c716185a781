import InodeVolume.Proofs.FileStore.Consistent
import InodeVolume.Proofs.Inode.Creation
import Mathlib.Data.Finset.Option

/-!
The operations that obtain sectors or give them back without touching an inode that there is:
creation of an inode, and what callers do with the allocator themselves. Everything in use stays as
it is, at any moment of the operation.
-/
namespace InodeVolume

variable {σ : Type} [Allocator σ] {size : Nat}

/-- An operation has replied what the file store admits, and the volume is that of the store
after it. -/
def Answered (l : Lender σ size) (st : FileStore) (o : Operation) (x : o.Reply × Registry σ)
    (d : Image) : Prop :=
  st.Admits o x.1 ∧ Consistent l d x.2 (st.after o x.1)

/-- The sectors of `R` are as they were, and the device shows them lent. -/
def Spares (l : Lender σ size) (R : Finset SectorId) (d d' : Image) : Prop :=
  Agree R d d' ∧ ∃ F, l.marked d' (F ∪ R)

theorem Blank.represents {d : Image} {s : SectorId} {length : Nat} {kind : InodeKind}
    {P : Finset SectorId} (h : Blank d s length kind P) :
    Represents d s (.blank kind length) ∧ footprint d s = insert s P := by
  refine ⟨h.stored.represents h.kind (h.size.trans ?_) fun p => ?_, h.stored.footprint_eq⟩
  · simp [File.blank]
  · rw [h.byte, File.blank]
    by_cases hp : p < length <;> simp [hp]

theorem Laid.of_agree {d d' : Image} {st : FileStore} (h : Laid d st)
    (hd : Agree (st.used d) d d') : Laid d' st ∧ st.used d' = st.used d :=
  h.hold (hd.mono Finset.subset_union_right)
    ((Finset.disjoint_biUnion_left _ _ _).2 fun _ hs => h.held hs)

namespace Serving

open Program

variable {l : Lender σ size} {a a' : σ} {registered : List HandleId} {d d' : Image}
  {reg : Registry σ} {st st' : FileStore}

theorem recordAt_eq (hc : Serving l a registered d reg st) {R : Finset SectorId}
    (hR : st.live.biUnion (footprint d) ⊆ R) (hd : Agree R d d') (h : HandleId) (f : OpenFile)
    (hf : st.opened h = some f) : recordAt d' f.inode = recordAt d f.inode :=
  recordAt_of_agree (hd.mono fun _ hx => hR (Finset.mem_biUnion.2 ⟨f.inode, hc.live hf, hx⟩))

/-- A program that begins with the sectors of `F` and spares all others. -/
theorem served_ensures {α : Type} {p : Program Store α} {F R : Finset SectorId}
    {G : Finset SectorId → Image → Image → Prop} {Q : α → Image → Finset SectorId → Prop}
    {Q' : α × Registry σ → Image → Prop} (hc : Serving l a registered d reg st)
    (hused : st.used d = F ∪ R) (hF : Disjoint F R) (hp : p.Secures G Q d F)
    (hQ : ∀ x a' d' F', Disjoint F' R → l.lends a' d' (F' ∪ R) → Agree R d d' → Q x d' F' →
      Q' (x, reg.setTable ⟨0⟩ ⟨a', registered⟩) d') :
    ((RegistryM.served ⟨0⟩ p).run reg).Ensures (· < size) (fun _ => Spares l R d) Q' d := by
  have hl := hc.lends
  rw [hused] at hl
  rw [RegistryM.served_run hc.table?_eq, ensures_bind]
  refine (hp.serve l hF hl).mono (fun _ hn => hn) ?_ ?_
  · rintro d₁ d₂ ⟨F', -, -, hd, hm⟩
    exact ⟨hd, F', hm⟩
  · rintro x d' ⟨F', hF', hl', hd, hq⟩
    exact hQ x.1 x.2 d' F' hF' hl' hd hq

theorem not_mem_live {R F : Finset SectorId} {s : SectorId}
    (hR : st.live.biUnion (footprint d) ⊆ R) (hF : Disjoint F R) (hs : s ∈ F) : s ∉ st.live := by
  intro hlive
  refine (Finset.disjoint_left.1 hF) hs (hR (Finset.mem_biUnion.2 ⟨s, hlive, ?_⟩))
  exact self_mem_footprint d s

/-- A new inode joins the store. -/
theorem added (hc : Serving l a registered d reg st) {s : SectorId} {f : File}
    {F held : Finset SectorId} (hheld : held ⊆ st.held)
    (hF : Disjoint F (held ∪ st.live.biUnion (footprint d)))
    (hl : l.lends a' d' (F ∪ (held ∪ st.live.biUnion (footprint d))))
    (hd : Agree (held ∪ st.live.biUnion (footprint d)) d d') (hs : Represents d' s f)
    (hfoot : footprint d' s = F) :
    Serving l a' registered d' (reg.setTable ⟨0⟩ ⟨a', registered⟩)
      ((st.addFile s f).holding held) := by
  have hnew : s ∉ st.live := not_mem_live Finset.subset_union_right hF
    (hfoot ▸ self_mem_footprint d' s)
  have hothers : ((st.addFile s f).holding held).others d s =
      held ∪ st.live.biUnion (footprint d) := by
    rw [FileStore.others, FileStore.holding, FileStore.addFile, Finset.erase_insert hnew]
  have hmem : s ∈ ((st.addFile s f).holding held).live := Finset.mem_insert_self s _
  have hfile : ((st.addFile s f).holding held).file s = f := st.file_setFile_self s f
  obtain ⟨hlaid, hsame⟩ := hc.laid.change s d' ((st.addFile s f).holding held)
    (fun t ht hne => ⟨(Finset.mem_insert.1 ht).resolve_left hne, st.file_setFile_of_ne hne f⟩) hheld
    (by rwa [hothers]) (fun _ => ⟨by rwa [hfile], by rwa [hothers, hfoot]⟩)
  refine hc.relaid hlaid ?_ rfl (fun h f hf => Finset.mem_insert_of_mem (hc.live hf))
    (hc.recordAt_eq Finset.subset_union_right hd)
  rwa [FileStore.used_eq_union hmem, hsame, hothers, hfoot]

/-- What callers hold changes, but for the sectors of `keep`. -/
theorem reheld (hc : Serving l a registered d reg st) {F keep held : Finset SectorId}
    (hkeep : keep ⊆ st.held) (hheld : held = F ∪ keep)
    (hF : Disjoint F (keep ∪ st.live.biUnion (footprint d)))
    (hl : l.lends a' d' (F ∪ (keep ∪ st.live.biUnion (footprint d))))
    (hd : Agree (keep ∪ st.live.biUnion (footprint d)) d d') :
    Serving l a' registered d' (reg.setTable ⟨0⟩ ⟨a', registered⟩) (st.holding held) := by
  have hlive : Disjoint (st.live.biUnion (footprint d)) held := by
    rw [hheld]
    refine Finset.disjoint_union_right.2 ⟨(hF.mono_right Finset.subset_union_right).symm, ?_⟩
    exact (Finset.disjoint_biUnion_left _ _ _).2 fun _ hs => (hc.laid.held hs).mono_right hkeep
  obtain ⟨hlaid, hused⟩ := hc.laid.hold (hd.mono Finset.subset_union_right) hlive
  refine hc.relaid hlaid ?_ rfl (fun _ _ => hc.live) (hc.recordAt_eq Finset.subset_union_right hd)
  rwa [hused, hheld, Finset.union_assoc]

/-- A program that begins with a sector that its caller holds. -/
theorem used_eq_erase {s : SectorId} (hs : s ∈ st.held) :
    st.used d = {s} ∪ (st.held.erase s ∪ st.live.biUnion (footprint d)) := by
  rw [← Finset.union_assoc, ← Finset.insert_eq, Finset.insert_erase hs, FileStore.used]

theorem disjoint_erase (hc : Serving l a registered d reg st) {s : SectorId} (hs : s ∈ st.held) :
    Disjoint {s} (st.held.erase s ∪ st.live.biUnion (footprint d)) := by
  rw [Finset.disjoint_singleton_left, Finset.mem_union, not_or]
  refine ⟨Finset.notMem_erase s _, fun hmem => ?_⟩
  obtain ⟨t, ht, hst⟩ := Finset.mem_biUnion.1 hmem
  exact (Finset.disjoint_left.1 (hc.laid.held ht)) hst hs

theorem create_ensures (hc : Serving l a registered d reg st) (length : Nat) (kind : InodeKind) :
    (((Operation.create length kind).perform ⟨0⟩).run reg).Ensures (· < size)
      (fun _ => Spares l (st.used d) d) (Answered l st (.create length kind)) d := by
  refine hc.served_ensures (F := ∅) (R := st.used d) (Finset.empty_union _).symm
    (Finset.disjoint_empty_left _) Store.create_secures ?_
  rintro (e | s) a' d' F' hF hl hd hpost
  · obtain ⟨rfl, he⟩ := hpost
    obtain ⟨hlaid, hused⟩ := hc.laid.of_agree hd
    rw [Finset.empty_union, ← hused] at hl
    exact ⟨he, a', registered, hc.relaid hlaid hl rfl (fun _ _ => hc.live)
      (hc.recordAt_eq Finset.subset_union_right hd)⟩
  · obtain ⟨P, rfl, hblank⟩ := hpost
    obtain ⟨hrep, hfoot⟩ := hblank.represents
    have hs : s ∈ insert s P := Finset.mem_insert_self s P
    refine ⟨⟨?_, not_mem_live Finset.subset_union_right hF hs, fun hheld => ?_⟩, a', registered,
      hc.added (Finset.Subset.refl _) hF hl hd hrep hfoot⟩
    · exact hblank.size ▸ hblank.stored.size_le
    · exact (Finset.disjoint_left.1 hF) hs (Finset.mem_union_left _ hheld)

theorem createAt_ensures (hc : Serving l a registered d reg st) {s : SectorId}
    (hs : s ∈ st.held) (length : Nat) (kind : InodeKind) :
    (((Operation.createAt s length kind).perform ⟨0⟩).run reg).Ensures (· < size)
      (fun _ => Spares l (st.held.erase s ∪ st.live.biUnion (footprint d)) d)
      (Answered l st (.createAt s length kind)) d := by
  refine hc.served_ensures (used_eq_erase hs) (hc.disjoint_erase hs) Store.createAt_secures ?_
  rintro (e | ⟨⟩) a' d' F' hF hl hd hpost
  · obtain ⟨rfl, he⟩ := hpost
    have hheld : st.held = {s} ∪ st.held.erase s := by
      rw [← Finset.insert_eq, Finset.insert_erase hs]
    exact ⟨he, a', registered, hc.reheld (Finset.erase_subset s _) hheld hF hl hd⟩
  · obtain ⟨P, rfl, hblank⟩ := hpost
    obtain ⟨hrep, hfoot⟩ := hblank.represents
    have hnew : s ∉ st.live :=
      not_mem_live Finset.subset_union_right hF (Finset.mem_insert_self s P)
    exact ⟨⟨hblank.size ▸ hblank.stored.size_le, hnew⟩, a', registered,
      hc.added (Finset.erase_subset s _) hF hl hd hrep hfoot⟩

theorem allocate_ensures (hc : Serving l a registered d reg st) :
    ((Operation.allocate.perform ⟨0⟩).run reg).Ensures (· < size)
      (fun _ => Spares l (st.used d) d) (Answered l st .allocate) d := by
  have hp : Store.allocate.Secures Store.anyStep
      (fun x _ F' => F' = x.toFinset) d ∅ := by
    rw [secures_allocate]
    exact fun _ _ => ⟨fun _ _ => trivial, rfl, fun _ _ => rfl⟩
  refine hc.served_ensures (F := ∅) (R := st.used d) (Finset.empty_union _).symm
    (Finset.disjoint_empty_left _) hp ?_
  rintro (_ | s) a' d' F' hF hl hd rfl
  · exact ⟨trivial, a', registered, hc.reheld (Finset.Subset.refl _) (Finset.empty_union _).symm hF
      hl hd⟩
  · have hs : s ∈ Option.toFinset (some s) := by simp
    refine ⟨⟨not_mem_live Finset.subset_union_right hF hs, fun hheld => ?_⟩, a', registered,
      hc.reheld (Finset.Subset.refl _) ?_ hF hl hd⟩
    · exact (Finset.disjoint_left.1 hF) hs (Finset.mem_union_left _ hheld)
    · rw [Option.toFinset_some, Finset.insert_eq]

theorem allocateMany_ensures (hc : Serving l a registered d reg st) {count : Nat}
    (hcount : count < Store.listLimit) :
    (((Operation.allocateMany count).perform ⟨0⟩).run reg).Ensures (· < size)
      (fun _ => Spares l (st.used d) d) (Answered l st (.allocateMany count)) d := by
  refine hc.served_ensures (F := ∅) (R := st.used d) (Finset.empty_union _).symm
    (Finset.disjoint_empty_left _)
    (Store.allocateMany_secures hcount (Store.lenient_anyStep ∅ d)) ?_
  rintro (e | ids) a' d' F' hF hl hd ⟨-, hpost⟩
  · obtain ⟨rfl, rfl⟩ := hpost
    exact ⟨rfl, a', registered, hc.reheld (Finset.Subset.refl _) (Finset.empty_union _).symm hF
      hl hd⟩
  · obtain ⟨hnodup, hlength, -, rfl⟩ := hpost
    rw [Finset.empty_union] at hF hl
    refine ⟨⟨hnodup, hlength, fun s hs => ?_⟩, a', registered,
      hc.reheld (Finset.Subset.refl _) (Finset.union_comm _ _) hF hl hd⟩
    have hs := List.mem_toFinset.2 hs
    exact ⟨not_mem_live Finset.subset_union_right hF hs, fun hheld =>
      (Finset.disjoint_left.1 hF) hs (Finset.mem_union_left _ hheld)⟩

theorem release_ensures (hc : Serving l a registered d reg st) {s : SectorId} (hs : s ∈ st.held) :
    (((Operation.release s).perform ⟨0⟩).run reg).Ensures (· < size)
      (fun _ => Spares l (st.held.erase s ∪ st.live.biUnion (footprint d)) d)
      (Answered l st (.release s)) d := by
  have hp : (Store.release s).Secures Store.anyStep (fun _ _ F' => F' = ∅) d {s} := by
    rw [secures_release]
    exact ⟨Finset.mem_singleton_self s, fun _ _ => ⟨fun _ _ => trivial, by simp⟩⟩
  refine hc.served_ensures (used_eq_erase hs) (hc.disjoint_erase hs) hp ?_
  rintro ⟨⟩ a' d' F' hF hl hd rfl
  exact ⟨trivial, a', registered, hc.reheld (Finset.erase_subset s _) (Finset.empty_union _).symm hF
    hl hd⟩

end Serving

end InodeVolume

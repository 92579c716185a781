import InodeVolume.Proofs.FileStore.Layout
import InodeVolume.Proofs.Registry.Runs

/-!
The invariant of a volume in use. The registry has one table, whose allocator has lent exactly the
sectors that the file store uses; the open handles are those that the table has registered, and
each of them holds a true copy of the record on the device.
-/
namespace InodeVolume

/-- The inode in memory behind an open handle. -/
def OpenFile.inodeOn (f : OpenFile) (d : Image) : OpenInode :=
  ⟨f.inode, f.openers, f.removed, f.denials, recordAt d f.inode⟩

@[simp] theorem OpenFile.sector_inodeOn (f : OpenFile) (d : Image) :
    (f.inodeOn d).sector = f.inode := rfl

@[simp] theorem OpenFile.record_inodeOn (f : OpenFile) (d : Image) :
    (f.inodeOn d).record = recordAt d f.inode := rfl

variable {σ : Type} [Allocator σ] {size : Nat}

structure Serving (l : Lender σ size) (a : σ) (registered : List HandleId) (d : Image)
    (reg : Registry σ) (st : FileStore) : Prop where
  laid : Laid d st
  tables : reg.tables = #[⟨a, registered⟩]
  lends : l.lends a d (st.used d)
  mem_registered (h : HandleId) : h ∈ registered ↔ ∃ f, st.opened h = some f
  handle {h : HandleId} {f : OpenFile} :
    st.opened h = some f → reg.handle? h = some ⟨⟨0⟩, f.inodeOn d⟩
  live {h : HandleId} {f : OpenFile} : st.opened h = some f → f.inode ∈ st.live
  openers_pos {h : HandleId} {f : OpenFile} : st.opened h = some f → 0 < f.openers
  single {h h' : HandleId} {f f' : OpenFile} :
    st.opened h = some f → st.opened h' = some f' → f.inode = f'.inode → h = h'

/-- The registry and the device are those of a file store. -/
def Consistent (l : Lender σ size) (d : Image) (reg : Registry σ) (st : FileStore) : Prop :=
  ∃ a registered, Serving l a registered d reg st

namespace Serving

variable {l : Lender σ size} {a a' : σ} {registered : List HandleId} {d d' : Image}
  {reg : Registry σ} {st st' : FileStore} {h : HandleId} {f f' : OpenFile}

theorem table?_eq (hc : Serving l a registered d reg st) :
    reg.table? ⟨0⟩ = some ⟨a, registered⟩ := Registry.table?_of_tables hc.tables

theorem represents (hc : Serving l a registered d reg st) (hf : st.opened h = some f) :
    Represents d f.inode (st.fileOf f) := hc.laid.represents (hc.live hf)

theorem stored (hc : Serving l a registered d reg st) (hf : st.opened h = some f) :
    Stored d (f.inodeOn d).sector (f.inodeOn d).record ((recordAt d f.inode).pointers d) :=
  (hc.represents hf).stored

/-- The sectors of an inode are on the device. -/
theorem lt_of_owned (hc : Serving l a registered d reg st) {s : SectorId} {n : Nat}
    (hs : s ∈ st.live) (hn : Owned (footprint d s) n) : n < size := by
  obtain ⟨id, hid, rfl⟩ := hn
  exact l.index_lt hc.lends (FileStore.footprint_subset_used hs hid)

/-- What looks at a live inode alone looks at nothing off the device. -/
theorem within {α : Type} {p : Program Disk α} {G : Image → Image → Prop} {Q : α → Image → Prop}
    (hc : Serving l a registered d reg st) {s : SectorId} (hs : s ∈ st.live)
    (h : p.Ensures (Owned (footprint d s)) G Q d) : p.Ensures (· < size) G Q d :=
  h.mono (fun _ hn => hc.lt_of_owned hs hn) (fun _ _ => id) fun _ _ => id

/-- The device and the allocator have changed, and the copies in memory follow the records. -/
theorem rebased {reg' : Registry σ} (hc : Serving l a registered d reg st) (hlaid : Laid d' st')
    (htables : reg'.tables = (reg.setTable ⟨0⟩ ⟨a', registered⟩).tables)
    (hl : l.lends a' d' (st'.used d')) (hopened : st'.opened = st.opened)
    (hhandle : ∀ k g, st.opened k = some g → reg'.handle? k = some ⟨⟨0⟩, g.inodeOn d'⟩)
    (hlive : ∀ h f, st.opened h = some f → f.inode ∈ st'.live) :
    Serving l a' registered d' reg' st' where
  laid := hlaid
  tables := htables.trans (Registry.tables_setTable hc.tables)
  lends := hl
  mem_registered := by
    rw [hopened]
    exact hc.mem_registered
  handle {h f} hf := hhandle h f (hopened ▸ hf)
  live {h f} hf := hlive h f (hopened ▸ hf)
  openers_pos hf := hc.openers_pos (hopened ▸ hf)
  single hf hf' he := hc.single (hopened ▸ hf) (hopened ▸ hf') he

/-- The device and the allocator have changed, but for what is open. -/
theorem relaid (hc : Serving l a registered d reg st) (hlaid : Laid d' st')
    (hl : l.lends a' d' (st'.used d')) (hopened : st'.opened = st.opened)
    (hlive : ∀ h f, st.opened h = some f → f.inode ∈ st'.live)
    (hrecord : ∀ h f, st.opened h = some f → recordAt d' f.inode = recordAt d f.inode) :
    Serving l a' registered d' (reg.setTable ⟨0⟩ ⟨a', registered⟩) st' := by
  refine hc.rebased hlaid rfl hl hopened (fun k g hg => ?_) hlive
  rw [Registry.handle?_setTable, hc.handle hg, OpenFile.inodeOn, OpenFile.inodeOn, hrecord k g hg]

/-- Besides, one open inode has changed, and so has its copy in memory. -/
theorem transacted (hc : Serving l a registered d reg st) (hf : st.opened h = some f)
    (hlaid : Laid d' st') (hl : l.lends a' d' (st'.used d')) (hopened : st'.opened = st.opened)
    (hlive : ∀ h f, st.opened h = some f → f.inode ∈ st'.live)
    (hrecord : ∀ k g, k ≠ h → st.opened k = some g → recordAt d' g.inode = recordAt d g.inode) :
    Serving l a' registered d'
      ((reg.setTable ⟨0⟩ ⟨a', registered⟩).setHandle h ⟨⟨0⟩, f.inodeOn d'⟩) st' := by
  refine hc.rebased hlaid rfl hl hopened (fun k g hg => ?_) hlive
  by_cases hk : k = h
  · subst hk
    rw [hf, Option.some.injEq] at hg
    subst hg
    exact Registry.handle?_setHandle_self (Registry.handle?_setTable.trans (hc.handle hf))
  · rw [Registry.handle?_setHandle_of_ne hk, Registry.handle?_setTable, hc.handle hg,
      OpenFile.inodeOn, OpenFile.inodeOn, hrecord k g hk hg]

/-- What is known of an open handle has changed. -/
theorem modified (hc : Serving l a registered d reg st) (hf : st.opened h = some f)
    (hinode : f'.inode = f.inode) (hpos : 0 < f'.openers) :
    Serving l a registered d (reg.setHandle h ⟨⟨0⟩, f'.inodeOn d⟩) (st.setOpened h (some f')) := by
  have hold {k : HandleId} {g : OpenFile} (hg : (st.setOpened h (some f')).opened k = some g) :
      ∃ g', st.opened k = some g' ∧ g'.inode = g.inode := by
    rcases FileStore.opened_setOpened_some.1 hg with ⟨rfl, rfl⟩ | ⟨-, hg⟩
    · exact ⟨f, hf, hinode.symm⟩
    · exact ⟨g, hg, rfl⟩
  exact {
    laid := ⟨hc.laid.represents, hc.laid.disjoint, hc.laid.held⟩
    tables := hc.tables
    lends := hc.lends
    mem_registered := by
      intro k
      rw [hc.mem_registered]
      by_cases hk : k = h
      · subst hk
        simp [hf]
      · rw [FileStore.opened_setOpened_of_ne _ hk]
    handle := by
      intro k g hg
      rcases FileStore.opened_setOpened_some.1 hg with ⟨rfl, rfl⟩ | ⟨hk, hg⟩
      · exact Registry.handle?_setHandle_self (hc.handle hf)
      · rw [Registry.handle?_setHandle_of_ne hk, hc.handle hg]
    live := by
      intro k g hg
      obtain ⟨g', hg', he⟩ := hold hg
      exact he ▸ hc.live hg'
    openers_pos := by
      intro k g hg
      rcases FileStore.opened_setOpened_some.1 hg with ⟨rfl, rfl⟩ | ⟨-, hg⟩
      · exact hpos
      · exact hc.openers_pos hg
    single := by
      intro k k' g g' hg hg' he
      obtain ⟨b, hb, hbe⟩ := hold hg
      obtain ⟨b', hb', hbe'⟩ := hold hg'
      exact hc.single hb hb' (by rw [hbe, hbe', he]) }

end Serving

end InodeVolume

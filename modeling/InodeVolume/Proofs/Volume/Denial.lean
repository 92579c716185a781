import InodeVolume.Device.SectorArray
import InodeVolume.Proofs.Volume.Sharing

/-!
Denying writes. Openers who each deny at most once, and allow again before they close, are counted
by the handle that they share: no assertion stops them, and a write is refused exactly while one of
them denies. Openers who keep to no such rule cannot deny more often than they are; but one of
several can close while there are as many denials as openers, which nothing prevents.
-/
namespace InodeVolume

open Program in
/-- A write that takes fewer bytes than there are has stopped growing. -/
theorem OpenInode.writeFrom_short {f g : OpenInode} {offset written count : Nat} {bytes : Bytes}
    {t : Dialogue Store} (h : (f.writeFrom offset bytes written).Ends t (count, g))
    (hle : written ≤ bytes.size) : count = bytes.size ∨
      ∃ position e, ⟨.disk (.note (.growthStopped f.sector position e)), ()⟩ ∈ t := by
  fun_induction writeFrom f offset bytes written generalizing t with
  | case1 f written hlt ih =>
    simp only [bind_eq, ends_bind] at h
    obtain ⟨t₁, t₂, start, rfl, -, t₃, t₄, ⟨place, f'⟩, rfl, hplace, hrest⟩ := h
    have hsame : f.SameUse f' := (f.sectorFor_sameUse start).of_ends hplace
    cases place with
    | error e =>
      simp only [liftM_eq, ends_bind, ends_note] at hrest
      obtain ⟨t₅, t₆, _, rfl, rfl, -⟩ := hrest
      refine .inr ⟨start, e, ?_⟩
      rw [← hsame.sector_eq]
      simp
    | ok id =>
      simp only [liftM_eq, ends_bind] at hrest
      obtain ⟨t₅, t₆, _, rfl, -, t₇, t₈, f'', rfl, hreach, hrest⟩ := hrest
      have hsame' : f.SameUse f'' :=
        hsame.trans ((yields_onStore.2 (f'.reach_sameUse _)).of_ends hreach)
      have hcount : min (bytes.size - written) (512 - start % 512) ≤ bytes.size - written :=
        Nat.min_le_left _ _
      refine (ih start f'' hrest (by omega)).imp_right fun ⟨position, e, hshort⟩ => ?_
      rw [hsame'.sector_eq] at hshort
      exact ⟨position, e, by simp [hshort]⟩
  | case2 f written hlt =>
    obtain ⟨-, hx⟩ := Program.ends_done.1 h
    cases hx
    exact .inl (Nat.le_antisymm hle (Nat.le_of_not_lt hlt))

section Restraint

namespace OpenInode

/-- There are as many denials as openers, and more than one opener. -/
def Strained (f : OpenInode) : Prop := 1 < f.openers ∧ f.openers ≤ f.denials

/-- There are no more denials than openers, but for one that the last opener has left. -/
def Balanced (f : OpenInode) : Prop := f.denials ≤ max f.openers 1

theorem SameUse.balanced {f g : OpenInode} (h : f.SameUse g) (hf : f.Balanced) : g.Balanced := by
  rw [Balanced, h.denials_eq, h.openers_eq]
  exact hf

end OpenInode

/-- An operation leaves the handle balanced, unless it is a close under strain. -/
theorem Operation.Turns.balanced {o : Operation} {f g : OpenInode} (h : o.Turns f g)
    (hf : f.Balanced) (hclose : ∀ k, o = .close k → ¬ f.Strained) : g.Balanced := by
  have hreopened : f.reopened.Balanced := by
    rw [OpenInode.Balanced] at hf ⊢
    dsimp only [OpenInode.reopened]
    omega
  cases o with
  | openAt s => exact OpenInode.SameUse.balanced h hreopened
  | reopen k => exact OpenInode.SameUse.balanced h hreopened
  | close k =>
    refine h.2.balanced ?_
    have hnot := hclose k rfl
    have hpos := h.1
    simp only [OpenInode.Balanced, OpenInode.Strained] at hf hnot ⊢
    omega
  | denyWrite k =>
    refine h.2.balanced ?_
    have hlt := h.1
    rw [OpenInode.Balanced]
    dsimp only
    omega
  | allowWrite k =>
    refine h.2.2.balanced ?_
    rw [OpenInode.Balanced] at hf ⊢
    dsimp only
    omega
  | remove k =>
    have hmarked : f.markedRemoved.Balanced := hf
    exact OpenInode.SameUse.balanced h hmarked
  | _ => exact OpenInode.SameUse.balanced h hf

namespace Machine

open Program

variable {δ σ : Type} [BlockDevice δ] [Allocator σ] {m m' m₀ : Machine δ σ}
  {o : Operation} {k : HandleId} {x : Handle}

/-- An operation changes how handles are used as it says. -/
theorem Replies.turned {y : o.Reply} (hy : m.Replies o y m') :
    m.registry.Turned o y m'.registry :=
  hy.of_yields (R := fun z => m.registry.Turned o z.1 z.2) (RegistryM.perform_turned ⟨0⟩ o)

/-- From one machine to another by any operations through any handles, but by no close of a handle
that is under strain. -/
inductive Restrained (m₀ : Machine δ σ) : Machine δ σ → Prop
  | start : Restrained m₀ m₀
  | step {m m' : Machine δ σ} {o : Operation} {y : o.Reply} : Restrained m₀ m →
    (∀ k x, o = .close k → m.registry.handle? k = some x → ¬ x.inode.Strained) →
      m.Replies o y m' → Restrained m₀ m'

theorem Replies.balanced {y : o.Reply} (hy : m.Replies o y m')
    (hclose : ∀ k x, o = .close k → m.registry.handle? k = some x → ¬ x.inode.Strained)
    (h : ∀ k x, m.registry.handle? k = some x → x.inode.Balanced)
    (hx : m'.registry.handle? k = some x) : x.inode.Balanced := by
  have hturned := hy.turned
  cases hz : m.registry.handle? k with
  | none =>
    obtain ⟨s, record, hs⟩ := hturned.fresh k x hz hx
    rw [hs]
    exact Nat.zero_le _
  | some z =>
    by_cases hk : o.turned y = some k
    · obtain ⟨g, hg, hturns⟩ := hturned.turns k z hk hz
      obtain rfl := Option.some.inj (hg.symm.trans hx)
      refine hturns.balanced (h k z hz) fun l hl => hclose k z ?_ hz
      subst hl
      obtain rfl := Option.some.inj hk
      rfl
    · obtain ⟨g, hg, hsame⟩ := hturned.keeps k z hk hz
      obtain rfl := Option.some.inj (hg.symm.trans hx)
      exact hsame.balanced (h k z hz)

theorem Restrained.balanced {d : δ} {a : σ} (h : Restrained ⟨d, .over a⟩ m)
    (hx : m.registry.handle? k = some x) : x.inode.Balanced := by
  induction h generalizing k x with
  | start => cases hx
  | step _ hclose hy ih => exact hy.balanced hclose (fun _ _ hz => ih hz) hx

theorem attempt_denyWrite_refused (hx : m.registry.handle? k = some x)
    (hle : x.inode.openers ≤ x.inode.denials) : m.attempt (.denyWrite k) =
      (.error (.breach (.deniedTooOften x.inode.sector)), ⟨m.device, #[]⟩) := by
  rw [attempt, Operation.perform, RegistryM.denyWrite_run_refused hx hle]
  rfl

theorem exists_reopen (hx : m.registry.handle? k = some x) : ∃ m', m.Replies (.reopen k) () m' ∧
    m'.registry.handle? k = some { x with inode := x.inode.reopened } := by
  refine ⟨⟨m.device, _⟩, ⟨#[], ?_⟩, Registry.handle?_setHandle_self hx⟩
  rw [attempt, Operation.perform, RegistryM.reopen_run hx]
  rfl

theorem exists_denyWrite (hx : m.registry.handle? k = some x)
    (hlt : x.inode.denials < x.inode.openers) : ∃ m', m.Replies (.denyWrite k) () m' ∧
      m'.registry.handle? k =
        some { x with inode := { x.inode with denials := x.inode.denials + 1 } } := by
  refine ⟨⟨m.device, _⟩, ⟨#[], ?_⟩, Registry.handle?_setHandle_self hx⟩
  rw [attempt, Operation.perform, RegistryM.denyWrite_run hx hlt]
  rfl

theorem exists_close_stays (hx : m.registry.handle? k = some x) (hlt : 1 < x.inode.openers) :
    ∃ m', m.Replies (.close k) () m' ∧ m'.registry.handle? k =
      some { x with inode := { x.inode with openers := x.inode.openers - 1 } } := by
  refine ⟨⟨m.device, _⟩, ⟨#[], ?_⟩, Registry.handle?_setHandle_self hx⟩
  rw [attempt, Operation.perform, RegistryM.close_run_stays ⟨0⟩ hx hlt]
  rfl

/-- Over any device and any allocator, whoever does what through which handles: as long as nobody
closes a handle under strain, no handle that is open has more denials than openers, and a denial
more than that fails its assertion before anything is done. A close under strain does not fail: it
leaves more denials than openers. -/
theorem Restrained.denials_le {d : δ} {a : σ} (h : Restrained ⟨d, .over a⟩ m)
    (hx : m.registry.handle? k = some x) :
    (0 < x.inode.openers → x.inode.denials ≤ x.inode.openers) ∧
      (x.inode.denials = x.inode.openers → m.attempt (.denyWrite k) =
        (.error (.breach (.deniedTooOften x.inode.sector)), ⟨m.device, #[]⟩)) ∧
      (x.inode.Strained → ∃ m' f, m.Replies (.close k) () m' ∧
        m'.registry.handle? k = some ⟨x.home, f⟩ ∧ 0 < f.openers ∧ f.openers < f.denials) := by
  have hbalanced := h.balanced hx
  refine ⟨fun hpos => ?_, fun heq => attempt_denyWrite_refused hx (Nat.le_of_eq heq.symm),
    fun hstrained => ?_⟩
  · rw [OpenInode.Balanced] at hbalanced
    omega
  · obtain ⟨hlt, hle⟩ := hstrained
    obtain ⟨m', hclose, hx'⟩ := exists_close_stays hx hlt
    refine ⟨m', _, hclose, hx', Nat.sub_pos_of_lt hlt, ?_⟩
    exact Nat.lt_of_lt_of_le (Nat.sub_lt (Nat.lt_trans Nat.zero_lt_one hlt) Nat.one_pos) hle

/-- The root directory of a new volume is opened twice. -/
theorem exists_reopened : ∃ (d : SectorArray) (fm : FreeMap) (o : Opener)
    (m m' : Machine SectorArray FreeMap) (x : Handle),
      (Machine.mk d (.over fm)).Replies (.openAt o.sector) (.ok o.handle) m ∧
        m.Replies (.reopen o.handle) () m' ∧ m'.registry.handle? o.handle = some x ∧
          x.inode.openers = 2 ∧ x.inode.denials = 0 := by
  have hsize : LawfulBlockDevice.size (SectorArray.filled 8 7) = 8 := Array.size_replicate
  obtain ⟨v, w, -, _, hinUse⟩ := exists_format 8 (d := SectorArray.filled 8 7)
    (Nat.le_of_eq hsize.symm) (by decide)
  have hlegal : (FileStore.initial v.root).Legal (.openAt v.root) :=
    Finset.mem_singleton_self v.root
  obtain ⟨y, m, hopen, hadmits, -⟩ := hinUse.attempt_ok hlegal rfl
  cases y with
  | error e => exact hadmits.elim
  | ok h =>
    have hfresh := Registry.SharedBy.fresh v.freeMap
    obtain ⟨-, record, hx⟩ := hopen.openAt_closed hfresh fun _ ho => by cases ho
    obtain ⟨m', hreopen, hx'⟩ := exists_reopen hx
    exact ⟨w.device, v.freeMap, ⟨v.root, h⟩, m, m', _, hopen, hreopen, hx', rfl, rfl⟩

/-- Both openers deny writes. -/
theorem exists_strained : ∃ (d : SectorArray) (fm : FreeMap) (o : Opener)
    (m : Machine SectorArray FreeMap) (x : Handle), Shares ⟨d, .over fm⟩ [o, o] m ∧
      Restrained ⟨d, .over fm⟩ m ∧ m.registry.handle? o.handle = some x ∧ x.inode.openers = 2 ∧
      x.inode.denials = 2 := by
  obtain ⟨d, fm, o, m₁, m₂, x, hopen, hreopen, hx, hopeners, hdenials⟩ := exists_reopened
  obtain ⟨m₃, hdeny, hx₃⟩ := exists_denyWrite hx (by omega)
  obtain ⟨m₄, hdeny', hx₄⟩ := exists_denyWrite hx₃ (by dsimp only; omega)
  have hopened : Shares ⟨d, .over fm⟩ [o, o] m₂ :=
    (Shares.start.opened hopen).reopened (List.mem_singleton_self _) hreopen
  refine ⟨d, fm, o, m₄, _, (hopened.used (o := .denyWrite o.handle) trivial hdeny).used
    (o := .denyWrite o.handle) trivial hdeny', ?_, hx₄, hopeners, congrArg (· + 2) hdenials⟩
  exact (((Restrained.start.step (by simp) hopen).step (by simp) hreopen).step (by simp)
    hdeny).step (by simp) hdeny'

/-- One denial more fails. -/
theorem denials_le_strained : ∃ (d : SectorArray) (fm : FreeMap) (o : Opener)
    (m : Machine SectorArray FreeMap) (x : Handle), Restrained ⟨d, .over fm⟩ m ∧
      m.registry.handle? o.handle = some x ∧ x.inode.denials = 2 ∧ x.inode.openers = 2 ∧
      m.attempt (.denyWrite o.handle) =
        (.error (.breach (.deniedTooOften x.inode.sector)), ⟨m.device, #[]⟩) := by
  obtain ⟨d, fm, o, m, x, -, hm, hx, hopeners, hdenials⟩ := exists_strained
  obtain ⟨-, hrefused, -⟩ := hm.denials_le hx
  exact ⟨d, fm, o, m, x, hm, hx, hdenials, hopeners, hrefused (hdenials.trans hopeners.symm)⟩

/-- A close does not: it leaves one opener and two denials. -/
theorem denials_exceed_openers : ∃ (d : SectorArray) (fm : FreeMap) (o : Opener)
    (m : Machine SectorArray FreeMap) (x : Handle), Shares ⟨d, .over fm⟩ [o] m ∧
      m.registry.handle? o.handle = some x ∧ x.inode.openers = 1 ∧ x.inode.denials = 2 := by
  obtain ⟨d, fm, o, m, x, hm, -, hx, hopeners, hdenials⟩ := exists_strained
  obtain ⟨m', hclose, hx'⟩ := exists_close_stays hx (by omega)
  have hm' := hm.closed List.mem_cons_self hclose
  rw [List.erase_cons_head] at hm'
  exact ⟨d, fm, o, m', _, hm', hx', congrArg (· - 1) hopeners, hdenials⟩

end Machine

end Restraint

section Ledger

/-- An opener, who denies writes or does not. -/
structure Holder where
  opener : Opener
  denies : Bool
  deriving DecidableEq

namespace Holder

/-- How many of those who have the sector open deny writes. -/
def denials (holders : List Holder) (s : SectorId) : Nat :=
  holders.countP fun x => x.denies ∧ x.opener.sector = s

variable {holders : List Holder} {x : Holder} {s : SectorId}

theorem denials_cons (x : Holder) (holders : List Holder) (s : SectorId) :
    denials (x :: holders) s =
      denials holders s + if x.denies ∧ x.opener.sector = s then 1 else 0 := by
  simp [denials, List.countP_cons]

theorem denials_erase (hx : x ∈ holders) (s : SectorId) : denials holders s =
    denials (holders.erase x) s + if x.denies ∧ x.opener.sector = s then 1 else 0 := by
  rw [← denials_cons, denials, denials, (List.perm_cons_erase hx).countP_eq]

theorem denials_le_count (holders : List Holder) (s : SectorId) :
    denials holders s ≤ Opener.count (holders.map opener) s := by
  rw [Opener.count, List.countP_map]
  exact List.countP_mono_left fun x _ hx => decide_eq_true (of_decide_eq_true hx).2

theorem denials_pos {o : Opener} (ho : ⟨o, true⟩ ∈ holders) : 0 < denials holders o.sector :=
  List.countP_pos_iff.2 ⟨⟨o, true⟩, ho, by simp⟩

/-- One of those who have the sector open does not deny. -/
theorem denials_lt_count {o : Opener} (ho : ⟨o, false⟩ ∈ holders) :
    denials holders o.sector < Opener.count (holders.map opener) o.sector := by
  have hcount : Opener.count (holders.map opener) o.sector =
      Opener.count (((⟨o, false⟩ : Holder) :: holders.erase ⟨o, false⟩).map opener) o.sector :=
    ((List.perm_cons_erase ho).map opener).countP_eq _
  rw [denials_erase ho, hcount, List.map_cons, Opener.count, List.countP_cons_of_pos (by simp),
    if_neg (by simp)]
  exact Nat.lt_succ_of_le (denials_le_count (holders.erase ⟨o, false⟩) o.sector)

end Holder

namespace Registry

variable {σ : Type} {reg reg' : Registry σ} {a : σ} {registered : List HandleId}
  {openers : List Opener} {holders holders' : List Holder} {o o₀ : Opener} {p : Operation}
  {y : p.Reply} {up down : Nat}

/-- The handle of an opener counts those who deny writes to its inode, which is not removed. -/
def Tallied (reg : Registry σ) (holders : List Holder) (o : Opener) : Prop :=
  ∃ f, reg.handle? o.handle = some ⟨⟨0⟩, f⟩ ∧ f.removed = false ∧
    f.denials = Holder.denials holders o.sector

theorem Tallied.kept (h : reg.Tallied holders o) (ht : reg.Turned p y reg')
    (hk : p.turned y ≠ some o.handle)
    (hd : Holder.denials holders' o.sector = Holder.denials holders o.sector) :
    reg'.Tallied holders' o := by
  obtain ⟨f, hf, hremoved, hdenials⟩ := h
  obtain ⟨g, hg, hsame⟩ := ht.keeps _ _ hk hf
  exact ⟨g, hg, hsame.removed_eq.trans hremoved, (hsame.denials_eq.trans hdenials).trans hd.symm⟩

/-- An operation through the handle of an opener changes the count of that sector alone. -/
theorem Tallied.step (h : reg.Tallied holders o) (hc : reg.SharedBy a registered openers)
    (ho₀ : o₀ ∈ openers) (ho : o ∈ openers) (ht : reg.Turned p y reg')
    (hk : p.turned y = some o₀.handle)
    (hp : ∀ f g, p.Turns f g → g.removed = f.removed ∧ g.denials + down = f.denials + up)
    (hd : Holder.denials holders' o.sector + (if o₀.sector = o.sector then down else 0) =
      Holder.denials holders o.sector + if o₀.sector = o.sector then up else 0) :
    reg'.Tallied holders' o := by
  by_cases hs : o₀.sector = o.sector
  · rw [hc.single o₀ ho₀ o ho hs] at hk
    rw [if_pos hs, if_pos hs] at hd
    obtain ⟨f, hf, hremoved, hdenials⟩ := h
    obtain ⟨g, hg, hturns⟩ := ht.turns _ _ hk hf
    obtain ⟨hremoved', hdenials'⟩ := hp f g hturns
    refine ⟨g, hg, hremoved'.trans hremoved, ?_⟩
    omega
  · rw [if_neg hs, if_neg hs] at hd
    refine h.kept ht (fun he => hs ?_) hd
    exact hc.eq_of_handle_eq ho₀ ho (Option.some.inj (hk.symm.trans he))

end Registry

/-- Neither opens nor closes nor removes, and neither denies writes nor allows them. -/
def Operation.IsNeutral : Operation → Prop
  | .openAt _ => False
  | .reopen _ => False
  | .close _ => False
  | .remove _ => False
  | .denyWrite _ => False
  | .allowWrite _ => False
  | _ => True

theorem Operation.IsNeutral.isUse {o : Operation} (h : o.IsNeutral) : o.IsUse := by
  cases o with
  | openAt s => exact h
  | reopen k => exact h
  | close k => exact h
  | _ => trivial

theorem Operation.IsNeutral.turned_eq {o : Operation} (h : o.IsNeutral) (y : o.Reply) :
    o.turned y = none := by
  cases o with
  | openAt s => exact h.elim
  | reopen k => exact h.elim
  | close k => exact h.elim
  | remove k => exact h.elim
  | denyWrite k => exact h.elim
  | allowWrite k => exact h.elim
  | _ => rfl

namespace Machine

open Program

variable {δ σ : Type} [BlockDevice δ] [Allocator σ] {m m' m₀ : Machine δ σ}
  {holders : List Holder}

/-- From one machine to another by openers who deny once at most, who allow only if they have
denied, and who do not deny any more when they close. In between anything may be done that changes
nothing of that, by any handle. -/
inductive Abides (m₀ : Machine δ σ) : List Holder → Machine δ σ → Prop
  | start : Abides m₀ [] m₀
  | opened {holders : List Holder} {m m' : Machine δ σ} {s : SectorId} {h : HandleId} :
    Abides m₀ holders m → m.Replies (.openAt s) (.ok h) m' →
      Abides m₀ (⟨⟨s, h⟩, false⟩ :: holders) m'
  | failed {holders : List Holder} {m m' : Machine δ σ} {s : SectorId} {e : VolumeError} :
    Abides m₀ holders m → m.Replies (.openAt s) (.error e) m' → Abides m₀ holders m'
  | reopened {holders : List Holder} {m m' : Machine δ σ} {x : Holder} :
    Abides m₀ holders m → x ∈ holders → m.Replies (.reopen x.opener.handle) () m' →
      Abides m₀ (⟨x.opener, false⟩ :: holders) m'
  | denied {holders : List Holder} {m m' : Machine δ σ} {o : Opener} :
    Abides m₀ holders m → ⟨o, false⟩ ∈ holders → m.Replies (.denyWrite o.handle) () m' →
      Abides m₀ (⟨o, true⟩ :: holders.erase ⟨o, false⟩) m'
  | allowed {holders : List Holder} {m m' : Machine δ σ} {o : Opener} :
    Abides m₀ holders m → ⟨o, true⟩ ∈ holders → m.Replies (.allowWrite o.handle) () m' →
      Abides m₀ (⟨o, false⟩ :: holders.erase ⟨o, true⟩) m'
  | closed {holders : List Holder} {m m' : Machine δ σ} {o : Opener} :
    Abides m₀ holders m → ⟨o, false⟩ ∈ holders → m.Replies (.close o.handle) () m' →
      Abides m₀ (holders.erase ⟨o, false⟩) m'
  | used {holders : List Holder} {m m' : Machine δ σ} {o : Operation} {y : o.Reply} :
    Abides m₀ holders m → o.IsNeutral → m.Replies o y m' → Abides m₀ holders m'

/-- The openers of a ledger share handles as ever. -/
theorem Abides.shares (h : Abides m₀ holders m) :
    ∃ openers, Shares m₀ openers m ∧ openers.Perm (holders.map Holder.opener) := by
  induction h with
  | start => exact ⟨[], .start, .nil⟩
  | opened _ hy ih =>
    obtain ⟨openers, hm, hperm⟩ := ih
    exact ⟨_, hm.opened hy, hperm.cons _⟩
  | failed _ hy ih =>
    obtain ⟨openers, hm, hperm⟩ := ih
    exact ⟨openers, hm.failed hy, hperm⟩
  | reopened _ hx hy ih =>
    obtain ⟨openers, hm, hperm⟩ := ih
    exact ⟨_, hm.reopened (hperm.mem_iff.2 (List.mem_map_of_mem hx)) hy, hperm.cons _⟩
  | denied _ hx hy ih =>
    obtain ⟨openers, hm, hperm⟩ := ih
    exact ⟨openers, hm.used (o := .denyWrite _) trivial hy,
      hperm.trans ((List.perm_cons_erase hx).map _)⟩
  | allowed _ hx hy ih =>
    obtain ⟨openers, hm, hperm⟩ := ih
    exact ⟨openers, hm.used (o := .allowWrite _) trivial hy,
      hperm.trans ((List.perm_cons_erase hx).map _)⟩
  | closed _ hx hy ih =>
    obtain ⟨openers, hm, hperm⟩ := ih
    refine ⟨_, hm.closed (hperm.mem_iff.2 (List.mem_map_of_mem hx)) hy, ?_⟩
    have hcons := hperm.trans ((List.perm_cons_erase hx).map Holder.opener)
    exact (hcons.erase _).trans (by rw [List.map_cons, List.erase_cons_head])
  | used _ ho hy ih =>
    obtain ⟨openers, hm, hperm⟩ := ih
    exact ⟨openers, hm.used ho.isUse hy, hperm⟩

theorem Abides.sharedBy {d : δ} {a : σ} (h : Abides ⟨d, .over a⟩ holders m) :
    ∃ openers a' registered, m.registry.SharedBy a' registered openers ∧
      openers.Perm (holders.map Holder.opener) := by
  obtain ⟨openers, hshares, hperm⟩ := h.shares
  obtain ⟨a', registered, hc⟩ := hshares.sharedBy
  exact ⟨openers, a', registered, hc, hperm⟩

/-- One of the openers uses the handle, and the ledger changes with the count. -/
theorem Abides.tallied_step {d : δ} {a : σ} (h : Abides ⟨d, .over a⟩ holders m)
    (htallied : ∀ x ∈ holders, m.registry.Tallied holders x.opener) {x₀ : Holder}
    (hx₀ : x₀ ∈ holders) {p : Operation} {y : p.Reply} (hy : m.Replies p y m')
    (hk : p.turned y = some x₀.opener.handle) (holders' : List Holder) (up down : Nat)
    (hp : ∀ f g, p.Turns f g → g.removed = f.removed ∧ g.denials + down = f.denials + up)
    (hd : ∀ s, Holder.denials holders' s + (if x₀.opener.sector = s then down else 0) =
      Holder.denials holders s + if x₀.opener.sector = s then up else 0) :
    ∀ x ∈ holders, m'.registry.Tallied holders' x.opener := by
  obtain ⟨openers, a', registered, hc, hperm⟩ := h.sharedBy
  have hmem {x : Holder} (hx : x ∈ holders) : x.opener ∈ openers :=
    hperm.mem_iff.2 (List.mem_map_of_mem hx)
  exact fun x hx => (htallied x hx).step hc (hmem hx₀) (hmem hx) hy.turned hk hp (hd _)

theorem Abides.tallied {d : δ} {a : σ} (h : Abides ⟨d, .over a⟩ holders m) :
    ∀ x ∈ holders, m.registry.Tallied holders x.opener := by
  have hreopened (f g : OpenInode) (hg : f.reopened.SameUse g) :
      g.removed = f.removed ∧ g.denials + 0 = f.denials + 0 := ⟨hg.removed_eq, hg.denials_eq⟩
  have hadded (holders : List Holder) (o : Opener) (s : SectorId) :
      Holder.denials (⟨o, false⟩ :: holders) s = Holder.denials holders s := by
    rw [Holder.denials_cons, if_neg (by simp), Nat.add_zero]
  induction h with
  | start => exact List.forall_mem_nil _
  | @opened holders m m' s h hm hy ih =>
    by_cases hs : ∃ z ∈ holders, z.opener.sector = s
    · -- The opener shares the handle of those who have the sector open already.
      obtain ⟨z, hz, rfl⟩ := hs
      obtain ⟨openers, a', registered, hc, hperm⟩ := (hm.opened hy).sharedBy
      have hh : z.opener.handle = h := hc.single _
        (hperm.mem_iff.2 (List.mem_map_of_mem (List.mem_cons_of_mem _ hz)))
        ⟨z.opener.sector, h⟩ (hperm.mem_iff.2 List.mem_cons_self) rfl
      subst hh
      have hstep := hm.tallied_step ih hz hy rfl (⟨z.opener, false⟩ :: holders) 0 0 hreopened
        fun s => by rw [hadded]
      exact List.forall_mem_cons.2 ⟨hstep z hz, hstep⟩
    · obtain ⟨openers, a', registered, hc, hperm⟩ := hm.sharedBy
      have hnew : ∀ o ∈ openers, o.sector ≠ s := by
        intro o ho he
        obtain ⟨z, hz, rfl⟩ := List.mem_map.1 (hperm.mem_iff.1 ho)
        exact hs ⟨z, hz, he⟩
      obtain ⟨hnone, record, hrecord⟩ := hy.openAt_closed hc hnew
      refine List.forall_mem_cons.2 ⟨⟨_, hrecord, rfl, ?_⟩, fun x hx => ?_⟩
      · rw [hadded]
        refine (List.countP_eq_zero.2 fun z hz => ?_).symm
        have hne : z.opener.sector ≠ s := fun he => hs ⟨z, hz, he⟩
        simp [hne]
      · refine (ih x hx).kept hy.turned (fun he => ?_) (hadded _ _ _)
        obtain ⟨f, hf, -⟩ := ih x hx
        rw [← Option.some.inj he, hnone] at hf
        cases hf
  | failed hm hy ih => exact fun x hx => (ih x hx).kept hy.turned (by simp [Operation.turned]) rfl
  | @reopened holders m m' x₀ hm hx₀ hy ih =>
    have hstep := hm.tallied_step ih hx₀ hy rfl (⟨x₀.opener, false⟩ :: holders) 0 0 hreopened
      fun s => by rw [hadded]
    exact List.forall_mem_cons.2 ⟨hstep x₀ hx₀, hstep⟩
  | @denied holders m m' o₀ hm ho₀ hy ih =>
    have hstep := hm.tallied_step ih ho₀ hy rfl (⟨o₀, true⟩ :: holders.erase ⟨o₀, false⟩) 1 0
      (fun f g hg => ⟨hg.2.removed_eq, hg.2.denials_eq⟩) fun s => by
        rw [Holder.denials_cons, Holder.denials_erase ho₀]
        simp
    exact List.forall_mem_cons.2
      ⟨(hstep ⟨o₀, false⟩ ho₀ :), fun x hx => hstep x (List.mem_of_mem_erase hx)⟩
  | @allowed holders m m' o₀ hm ho₀ hy ih =>
    have hstep := hm.tallied_step ih ho₀ hy rfl (⟨o₀, false⟩ :: holders.erase ⟨o₀, true⟩) 0 1
      (fun f g hg => ⟨hg.2.2.removed_eq, by
        rw [hg.2.2.denials_eq]
        exact Nat.sub_add_cancel hg.1⟩) fun s => by
        rw [hadded, Holder.denials_erase ho₀]
        simp
    exact List.forall_mem_cons.2
      ⟨(hstep ⟨o₀, true⟩ ho₀ :), fun x hx => hstep x (List.mem_of_mem_erase hx)⟩
  | @closed holders m m' o₀ hm ho₀ hy ih =>
    have hstep := hm.tallied_step ih ho₀ hy rfl (holders.erase ⟨o₀, false⟩) 0 0
      (fun f g hg => ⟨hg.2.removed_eq, hg.2.denials_eq⟩) fun s => by
        rw [Holder.denials_erase ho₀]
        simp
    exact fun x hx => hstep x (List.mem_of_mem_erase hx)
  | used hm ho hy ih =>
    exact fun x hx => (ih x hx).kept hy.turned (by simp [ho.turned_eq]) rfl

theorem exists_replies {o : Operation} {y : o.Reply} {reg : Registry σ} {w : World δ}
    (h : m.attempt o = (.ok (y, reg), w)) : ∃ m', m.Replies o y m' :=
  ⟨⟨w.device, reg⟩, w.journal, h⟩

theorem exists_allowWrite {k : HandleId} {x : Handle} (hx : m.registry.handle? k = some x)
    (hpos : 0 < x.inode.denials) (hle : x.inode.denials ≤ x.inode.openers) :
    ∃ m', m.Replies (.allowWrite k) () m' := by
  apply exists_replies
  rw [attempt, Operation.perform, RegistryM.allowWrite_run hx hpos hle]
  rfl

/-- An inode that has not been removed can be closed by each of its openers. -/
theorem exists_close {k : HandleId} {x : Handle} {e : InodeTable σ}
    (hx : m.registry.handle? k = some x) (ht : m.registry.table? ⟨0⟩ = some e)
    (hpos : 0 < x.inode.openers) (hremoved : x.inode.removed = false) :
    ∃ m', m.Replies (.close k) () m' := by
  rcases Nat.lt_or_eq_of_le (Nat.succ_le_of_lt hpos) with hlt | hlast
  · obtain ⟨m', hclose, -⟩ := exists_close_stays hx hlt
    exact ⟨m', hclose⟩
  · apply exists_replies
    rw [attempt, Operation.perform, RegistryM.close_run_last hx ht hlast.symm hremoved]
    rfl

/-- While there are denials a write takes no bytes and changes nothing. -/
theorem attempt_writeAt_denied {k : HandleId} {x : Handle} {e : InodeTable σ}
    (hx : m.registry.handle? k = some x) (ht : m.registry.table? x.home = some e)
    (hpos : 0 < x.inode.denials) (offset : Nat) (buffer : Bytes) :
    m.attempt (.writeAt k offset buffer) =
      (.ok (0, m.registry), ⟨m.device, #[.noted (.writeDenied x.inode.sector)]⟩) := by
  rw [attempt, Operation.perform, RegistryM.writeAt_run_denied hx ht hpos]
  rfl

theorem attempt_writeAt_admitted {k : HandleId} {x : Handle}
    (hx : m.registry.handle? k = some x) (hzero : x.inode.denials = 0) (offset : Nat)
    (buffer : Bytes) : m.attempt (.writeAt k offset buffer) =
      ((RegistryM.transact k fun f => f.writeFrom offset buffer 0).run m.registry).run
        ⟨m.device, #[]⟩ := by
  rw [attempt, Operation.perform, RegistryM.writeAt_run_admitted hx hzero]

/-- Otherwise it falls short only of a file that has stopped growing. -/
theorem short_of_writeAt_admitted {k : HandleId} {x : Handle}
    (hx : m.registry.handle? k = some x) (hzero : x.inode.denials = 0) {offset count : Nat}
    {buffer : Bytes} {reg : Registry σ} {w : World δ}
    (hw : m.attempt (.writeAt k offset buffer) = (.ok (count, reg), w)) : count = buffer.size ∨
      ∃ position e, .growthStopped x.inode.sector position e ∈ w.notices := by
  rw [attempt_writeAt_admitted hx hzero] at hw
  obtain ⟨y, e, g, a₁, t, hy, -, hends, htakes, -⟩ := RegistryM.transact_takes hw
  obtain rfl := Option.some.inj (hy.symm.trans hx)
  rcases OpenInode.writeFrom_short hends (Nat.zero_le _) with hall | ⟨position, e, hshort⟩
  · exact .inl hall
  · exact .inr ⟨position, e, htakes.noted hshort⟩

/-- What the openers of a ledger find. -/
structure DenialsCounted (m : Machine δ σ) (holders : List Holder) : Prop where
  /-- A handle counts those who deny writes, who are no more than those who have it open. -/
  counted : ∀ x ∈ holders, ∃ f, m.registry.handle? x.opener.handle = some ⟨⟨0⟩, f⟩ ∧
    f.denials = Holder.denials holders x.opener.sector ∧ f.denials ≤ f.openers ∧
    f.openers = Opener.count (holders.map Holder.opener) x.opener.sector
  denies : ∀ o, ⟨o, false⟩ ∈ holders → ∃ m', m.Replies (.denyWrite o.handle) () m'
  allows : ∀ o, ⟨o, true⟩ ∈ holders → ∃ m', m.Replies (.allowWrite o.handle) () m'
  closes : ∀ o, ⟨o, false⟩ ∈ holders → ∃ m', m.Replies (.close o.handle) () m'
  /-- While somebody denies, a write takes no bytes and changes nothing. -/
  refused : ∀ x ∈ holders, 0 < Holder.denials holders x.opener.sector → ∀ offset buffer,
    m.attempt (.writeAt x.opener.handle offset buffer) =
      (.ok (0, m.registry), ⟨m.device, #[.noted (.writeDenied x.opener.sector)]⟩)
  /-- While nobody does, a write goes on to its bytes, and takes all of them unless the file stops
  growing. -/
  admitted : ∀ x ∈ holders, Holder.denials holders x.opener.sector = 0 → ∀ offset buffer,
    m.attempt (.writeAt x.opener.handle offset buffer) =
      ((RegistryM.transact x.opener.handle fun f => f.writeFrom offset buffer 0).run
        m.registry).run ⟨m.device, #[]⟩ ∧
    ∀ count reg w, m.attempt (.writeAt x.opener.handle offset buffer) = (.ok (count, reg), w) →
      count = buffer.size ∨ ∃ position e, .growthStopped x.opener.sector position e ∈ w.notices

/-- The handle of an opener counts as the ledger does. -/
theorem Abides.handle {d : δ} {a : σ} (h : Abides ⟨d, .over a⟩ holders m) {x : Holder}
    (hx : x ∈ holders) : ∃ f, m.registry.handle? x.opener.handle = some ⟨⟨0⟩, f⟩ ∧
      f.sector = x.opener.sector ∧ f.removed = false ∧
      f.denials = Holder.denials holders x.opener.sector ∧
      f.openers = Opener.count (holders.map Holder.opener) x.opener.sector := by
  obtain ⟨openers, a', registered, hc, hperm⟩ := h.sharedBy
  obtain ⟨f, hf, hremoved, hdenials⟩ := h.tallied x hx
  obtain ⟨g, hg, hsector, hopeners⟩ :=
    hc.handle x.opener (hperm.mem_iff.2 (List.mem_map_of_mem hx))
  obtain rfl := (Handle.mk.inj (Option.some.inj (hf.symm.trans hg))).2
  exact ⟨f, hf, hsector, hremoved, hdenials, hopeners.trans (hperm.countP_eq _)⟩

/-- Over any device and any allocator: openers who deny once at most each, allow only what they have
denied, and do not deny any more when they close, in any order. -/
theorem Abides.denialsCounted {d : δ} {a : σ} (h : Abides ⟨d, .over a⟩ holders m) :
    m.DenialsCounted holders := by
  obtain ⟨openers, a', registered, hc, hperm⟩ := h.sharedBy
  constructor
  case counted =>
    intro x hx
    obtain ⟨f, hf, -, -, hdenials, hopeners⟩ := h.handle hx
    refine ⟨f, hf, hdenials, ?_, hopeners⟩
    rw [hdenials, hopeners]
    exact Holder.denials_le_count holders _
  case denies =>
    intro o ho
    obtain ⟨f, hf, -, -, hdenials, hopeners⟩ := h.handle ho
    obtain ⟨m', hm', -⟩ := exists_denyWrite hf (by
      rw [hdenials, hopeners]
      exact Holder.denials_lt_count ho)
    exact ⟨m', hm'⟩
  case allows =>
    intro o ho
    obtain ⟨f, hf, -, -, hdenials, hopeners⟩ := h.handle ho
    refine exists_allowWrite hf (hdenials ▸ Holder.denials_pos ho) ?_
    rw [hdenials, hopeners]
    exact Holder.denials_le_count holders _
  case closes =>
    intro o ho
    obtain ⟨f, hf, -, hremoved, -, hopeners⟩ := h.handle ho
    refine exists_close hf hc.table?_eq ?_ hremoved
    rw [hopeners]
    exact List.countP_pos_iff.2 ⟨o, List.mem_map_of_mem ho, by simp⟩
  case refused =>
    intro x hx hpos offset buffer
    obtain ⟨f, hf, hsector, -, hdenials, -⟩ := h.handle hx
    rw [← hsector]
    exact attempt_writeAt_denied hf hc.table?_eq (hdenials ▸ hpos) offset buffer
  case admitted =>
    intro x hx hzero offset buffer
    obtain ⟨f, hf, hsector, -, hdenials, -⟩ := h.handle hx
    rw [← hsector]
    exact ⟨attempt_writeAt_admitted hf (hdenials.trans hzero) offset buffer,
      fun count reg w hw => short_of_writeAt_admitted hf (hdenials.trans hzero) hw⟩

/-- One of two who share the root directory denies writes: the other cannot write. -/
theorem denialsCounted_root_directory : ∃ (d : SectorArray) (fm : FreeMap) (o : Opener)
    (m : Machine SectorArray FreeMap) (x : Handle),
      Abides ⟨d, .over fm⟩ [⟨o, true⟩, ⟨o, false⟩] m ∧
        m.registry.handle? o.handle = some x ∧ x.inode.denials = 1 ∧ x.inode.openers = 2 ∧
          m.attempt (.writeAt o.handle 0 #[255]) =
            (.ok (0, m.registry), ⟨m.device, #[.noted (.writeDenied o.sector)]⟩) := by
  obtain ⟨d, fm, o, m₁, m₂, x, hopen, hreopen, hx, hopeners, hzero⟩ := exists_reopened
  obtain ⟨m₃, hdeny, -⟩ := exists_denyWrite hx (by omega)
  have hopened : Abides ⟨d, .over fm⟩ [⟨o, false⟩, ⟨o, false⟩] m₂ :=
    (Abides.start.opened hopen).reopened (x := ⟨o, false⟩) (List.mem_singleton_self _) hreopen
  have hdenied : Abides ⟨d, .over fm⟩ [⟨o, true⟩, ⟨o, false⟩] m₃ := by
    have hm := hopened.denied List.mem_cons_self hdeny
    rwa [List.erase_cons_head] at hm
  have hm := hdenied.denialsCounted
  have hone : Holder.denials [⟨o, true⟩, ⟨o, false⟩] o.sector = 1 := by simp [Holder.denials]
  have htwo : Opener.count ([⟨o, true⟩, ⟨o, false⟩].map Holder.opener) o.sector = 2 := by
    simp [Opener.count]
  obtain ⟨f, hf, hdenials, -, hopeners'⟩ := hm.counted ⟨o, true⟩ List.mem_cons_self
  exact ⟨d, fm, o, m₃, _, hdenied, hf, hdenials.trans hone, hopeners'.trans htwo,
    hm.refused ⟨o, true⟩ List.mem_cons_self (hone ▸ Nat.one_pos) 0 #[255]⟩

end Machine

end Ledger

end InodeVolume

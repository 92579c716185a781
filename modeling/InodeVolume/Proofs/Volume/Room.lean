import InodeVolume.Device.SectorArray
import InodeVolume.Proofs.Volume.Development

/-!
Room for a file. Whether it can have a block is a matter of what all files occupy, and as long as it
grows no further than that block it stays so. Hence a sequence of extensions or writes succeeds as a
whole if there is room for the furthest of them, and the file is then as after a single one.
-/
namespace InodeVolume

namespace Bytes

theorem padded_padded (b : Bytes) (m n : Nat) :
    (b.padded m).padded n = b.padded (max m n) := by
  refine ext_getD ?_ fun p => ?_
  · simp only [size_padded, Nat.max_assoc]
  · simp only [getD_padded]

/-- Buffers one behind the other. -/
def joined (buffers : List Bytes) : Bytes := buffers.foldr (· ++ ·) #[]

theorem joined_cons (b : Bytes) (rest : List Bytes) :
    joined (b :: rest) = b ++ joined rest := rfl

theorem joined_singletons (bytes : List UInt8) :
    joined (bytes.map fun c => #[c]) = bytes.toArray := by
  induction bytes with
  | nil => rfl
  | cons c rest ih =>
    rw [List.map_cons, joined_cons, ih]
    simp

end Bytes

namespace File

variable (f : File) {offset count : Nat} {a b : Bytes} {targets : List Nat} {last : Nat}

theorem eq_of_kind_of_bytes {f g : File} (hkind : f.kind = g.kind) (hbytes : f.bytes = g.bytes) :
    f = g := by
  cases f
  cases g
  simp_all

theorem kind_written (offset : Nat) (b : Bytes) (count : Nat) :
    (f.written offset b count).kind = f.kind := by
  unfold written
  split <;> rfl

theorem extended_extended (s t : Nat) : (f.extended s).extended t = f.extended (max s t) := by
  simp only [extended, Bytes.padded_padded, Nat.add_max_add_right]

/-- Extensions come to the furthest of them. -/
theorem foldl_extended (hle : ∀ t ∈ targets, t ≤ last) (hlast : last ∈ targets) :
    targets.foldl extended f = f.extended last := by
  have hreached {g : File} : ∀ ts : List Nat, (∀ t ∈ ts, t ≤ last) →
      ts.foldl extended (g.extended last) = g.extended last := by
    intro ts
    induction ts with
    | nil => exact fun _ => rfl
    | cons t ts ih =>
      intro hts
      rw [List.foldl_cons, extended_extended, Nat.max_eq_left (hts t List.mem_cons_self)]
      exact ih fun u hu => hts u (List.mem_cons_of_mem t hu)
  induction targets generalizing f with
  | nil => cases hlast
  | cons t ts ih =>
    have hts : ∀ u ∈ ts, u ≤ last := fun u hu => hle u (List.mem_cons_of_mem t hu)
    rw [List.foldl_cons]
    rcases List.mem_cons.1 hlast with rfl | hmem
    · exact hreached ts hts
    · rw [ih (f.extended t) hts hmem, extended_extended,
        Nat.max_eq_right (hle t List.mem_cons_self)]

/-- Two writes, the second where the first ended, are one. -/
theorem written_written (hcount : count ≤ b.size) :
    (f.written offset a a.size).written (offset + a.size) b count =
      f.written offset (a ++ b) (a.size + count) := by
  have hsum : a.size + count ≤ (a ++ b).size := by
    rw [Array.size_append]
    omega
  have hkind : ((f.written offset a a.size).written (offset + a.size) b count).kind =
      (f.written offset (a ++ b) (a.size + count)).kind := by
    simp only [kind_written]
  have hbytes : ((f.written offset a a.size).written (offset + a.size) b count).bytes =
      (f.written offset (a ++ b) (a.size + count)).bytes := by
    refine Bytes.ext_getD ?_ fun p => ?_
    · rw [size_written _ _ hcount, size_written _ _ (Nat.le_refl _), size_written _ _ hsum]
      unfold lengthAfter
      split <;> split <;> split <;> omega
    · rw [getD_written _ hcount, getD_written _ hsum]
      simp only [overlaid, getD_written _ (Nat.le_refl a.size), Bytes.getD_append]
      by_cases hp : offset ≤ p ∧ p < offset + a.size
      · rw [if_neg (by omega), if_pos hp, if_pos (by omega), if_pos (by omega)]
      · rw [if_neg hp]
        by_cases hq : offset + a.size ≤ p ∧ p < offset + a.size + count
        · rw [if_pos hq, if_pos (by omega), if_neg (by omega), Nat.sub_add_eq]
        · rw [if_neg hq, if_neg (by omega)]
  exact eq_of_kind_of_bytes hkind hbytes

/-- Only what is taken of a buffer matters. -/
theorem written_extract (hcount : count ≤ b.size) :
    f.written offset (b.extract 0 count) (Array.size (b.extract 0 count)) =
      f.written offset b count := by
  have hsize : (b.extract 0 count).size = count := by
    rw [Array.size_extract]
    omega
  rw [hsize, written, written, Bytes.overwritten, Bytes.overwritten, Array.extract_extract]
  simp

end File

theorem extendRefusal_eq_none_iff {free blocks target : Nat} :
    extendRefusal free blocks target = none ↔
      target / 512 < maxBlocks ∧ growthCost blocks (target / 512) ≤ free := by
  unfold extendRefusal
  split
  · simp only [reduceCtorEq, false_iff]
    omega
  · split
    · simp only [true_iff]
      omega
    · simp only [reduceCtorEq, false_iff]
      omega

namespace FileStore

variable {total : UInt32} {st : FileStore} {s : SectorId} {k : HandleId} {f : OpenFile}
  {b b' : Bytes} {i j offset n : Nat}

theorem fileOf_setBytes : (st.setBytes f.inode b).fileOf f = ⟨(st.fileOf f).kind, b⟩ :=
  st.file_setFile_self f.inode _

theorem setBytes_setBytes : (st.setBytes s b).setBytes s b' = st.setBytes s b' := by
  rw [setBytes, setBytes, setBytes, file_setFile_self]
  simp only [setFile, Function.update_idem]

theorem opened_after_writeAt (hf : st.opened k = some f) :
    (st.after (.writeAt k offset b) n).opened k = some f := by
  rw [after_writeAt hf]
  exact hf

/-- Two writes, the second where the first ended, leave the store that one write leaves. -/
theorem after_writeAt_writeAt (hf : st.opened k = some f) (hn : n ≤ b'.size) :
    (st.after (.writeAt k offset b) b.size).after (.writeAt k (offset + b.size) b') n =
      st.after (.writeAt k offset (b ++ b')) (b.size + n) := by
  have hfile : (st.setBytes f.inode ((st.fileOf f).written offset b b.size).bytes).fileOf f =
      (st.fileOf f).written offset b b.size := by
    rw [fileOf_setBytes, ← (st.fileOf f).kind_written offset b b.size]
  rw [after_writeAt (opened_after_writeAt hf), after_writeAt hf, after_writeAt hf, hfile,
    setBytes_setBytes, File.written_written _ hn]

/-- On a volume there is room for the file behind an open handle to have block `i`. -/
def HasRoom (total : UInt32) (st : FileStore) (f : OpenFile) (i : Nat) : Prop :=
  i < maxBlocks ∧ 1 + FreeMap.blocksFor total.toNat + st.occupied +
    growthCost (dataBlocks (st.fileOf f).bytes.size) i ≤ total.toNat

theorem HasRoom.mono (h : st.HasRoom total f i) (hj : j ≤ i) : st.HasRoom total f j := by
  obtain ⟨hi, hcost⟩ := h
  have hmono := totalSectors_mono (show max (dataBlocks (st.fileOf f).bytes.size) (j + 1) ≤
    max (dataBlocks (st.fileOf f).bytes.size) (i + 1) by omega)
  refine ⟨by omega, ?_⟩
  unfold growthCost at *
  omega

/-- There is still as much room after the file has grown on the way to that block. -/
theorem hasRoom_setBytes (total : UInt32) (i : Nat) (hlive : f.inode ∈ st.live)
    (hle : dataBlocks (st.fileOf f).bytes.size ≤ dataBlocks b.size)
    (hmax : dataBlocks b.size ≤ max (dataBlocks (st.fileOf f).bytes.size) (i + 1)) :
    (st.setBytes f.inode b).HasRoom total f i ↔ st.HasRoom total f i := by
  have hoccupied := occupied_setBytes (b := b) hlive
  have hend : max (dataBlocks b.size) (i + 1) =
    max (dataBlocks (st.fileOf f).bytes.size) (i + 1) := by omega
  have hmono := totalSectors_mono hle
  have hmono' := totalSectors_mono hmax
  simp only [HasRoom, growthCost, fileOf_setBytes, hend]
  rw [fileOf] at *
  omega

/-- Of the bytes that are written at `offset` the volume takes `n`. -/
def Accepts (total : UInt32) (st : FileStore) (f : OpenFile) (offset n : Nat) : Prop :=
  n = 0 ∨ f.denials = 0 ∧ st.HasRoom total f ((offset + n - 1) / 512)

theorem Accepts.lt_word (h : st.Accepts total f offset n) (hoffset : offset < 2 ^ 64) :
    offset + n < 2 ^ 64 := by
  rcases h with rfl | ⟨-, hlt, -⟩
  · exact hoffset
  · simp only [maxBlocks] at hlt
    omega

/-- What the volume takes, it takes as well in two parts. -/
theorem accepts_add_iff (hf : st.opened k = some f) (hlive : f.inode ∈ st.live)
    (h : st.Accepts total f offset b.size) :
    (st.after (.writeAt k offset b) b.size).Accepts total f (offset + b.size) n ↔
      st.Accepts total f offset (b.size + n) := by
  rw [after_writeAt hf]
  rcases Nat.eq_zero_or_pos n with rfl | hpos
  · exact ⟨fun _ => h, fun _ => Or.inl rfl⟩
  · have hsize := (st.fileOf f).size_written offset (Nat.le_refl b.size)
    have hroom := hasRoom_setBytes total ((offset + b.size + n - 1) / 512)
      (b := ((st.fileOf f).written offset b b.size).bytes) hlive
      (by rw [hsize]; unfold lengthAfter dataBlocks; split <;> omega)
      (by rw [hsize]; unfold lengthAfter dataBlocks; split <;> omega)
    have hn : ¬ n = 0 := by omega
    have hbn : ¬ b.size + n = 0 := by omega
    simp only [Accepts, hn, hbn, false_or, ← Nat.add_assoc, hroom]

end FileStore

namespace Machine

open Program LawfulBlockDevice

variable {δ : Type} [BlockDevice δ] {m m' m₀ : Machine δ FreeMap} {k : HandleId}

/-- The file behind `k` is extended to one target after another, each time with success. -/
def ExtendsAll (k : HandleId) : Machine δ FreeMap → List Nat → Machine δ FreeMap → Prop
  | m, [], m' => m' = m
  | m, target :: rest, m' =>
    ∃ id m₁, m.Replies (.extend k target) (.ok id) m₁ ∧ ExtendsAll k m₁ rest m'

/-- Buffers are written to the file behind `k` one behind the other, from `offset` on, and each of
them is taken whole. -/
def WritesAll (k : HandleId) : Machine δ FreeMap → Nat → List Bytes → Machine δ FreeMap → Prop
  | m, _, [], m' => m' = m
  | m, offset, b :: rest, m' =>
    ∃ m₁, m.Replies (.writeAt k offset b) b.size m₁ ∧ WritesAll k m₁ (offset + b.size) rest m'

variable [LawfulBlockDevice δ] {total : UInt32} {st : FileStore} {f : OpenFile} {origin : Outset}
  {target offset : Nat} {buffer : Bytes}

namespace OnVolume

theorem live (h : OnVolume total m st) (hf : st.opened k = some f) : f.inode ∈ st.live := by
  obtain ⟨hm, hu⟩ := h.inUse
  obtain ⟨a, registered, hc⟩ := hu.consistent
  exact hc.live hf

/-- Calls on one open file that leave the same store leave machines that are alike. -/
theorem alike_of_hasGrown (h : OnVolume total m st) (h' : OnVolume total m' st)
    (hf : st.opened k = some f) (hg : HasGrown (Volume.mapOf total) origin k f m₀ m)
    (hg' : HasGrown (Volume.mapOf total) origin k f m₀ m') : Alike m m' := by
  obtain ⟨_, hu⟩ := h.inUse
  obtain ⟨_, hu'⟩ := h'.inUse
  exact hg.alike hg' (hu.represents (h.live hf)) (hu'.represents (h.live hf))

theorem extend_iff (h : OnVolume total m st) (hf : st.opened k = some f) :
    (∃ id m', m.Replies (.extend k target) (.ok id) m') ↔ st.HasRoom total f (target / 512) := by
  obtain ⟨free, hfree, hsum⟩ := h.countsFree
  have hexact := h.extend_exact hfree hf target
  have hroom : st.HasRoom total f (target / 512) ↔
      extendRefusal free (dataBlocks (st.fileOf f).bytes.size) target = none := by
    rw [extendRefusal_eq_none_iff, FileStore.HasRoom]
    omega
  rw [hroom]
  cases hrefusal : extendRefusal free (dataBlocks (st.fileOf f).bytes.size) target with
  | none =>
    rw [ExtendsExactly, hrefusal] at hexact
    obtain ⟨id, m', -, hx, -⟩ := hexact
    exact ⟨fun _ => rfl, fun _ => ⟨id, m', hx⟩⟩
  | some e =>
    rw [ExtendsExactly, hrefusal] at hexact
    obtain ⟨m', hx, -⟩ := hexact
    refine ⟨fun hok => ?_, fun hnone => by cases hnone⟩
    obtain ⟨id, m'', hx'⟩ := hok
    cases (hx.unique hx').1

/-- A write takes as much as it can. -/
theorem writeAt_greatest (h : OnVolume total m st) (hf : st.opened k = some f)
    (hoffset : offset < 2 ^ 64) {count : Nat} (hx : m.Replies (.writeAt k offset buffer) count m') :
    IsGreatest {n | n ≤ buffer.size ∧ st.Accepts total f offset n} count := by
  by_cases hdenials : f.denials = 0
  · obtain ⟨free, hfree, hsum⟩ := h.countsFree
    obtain ⟨count', m'', rest, hx', hgreatest, -⟩ := h.writeAt_exact hfree hf hdenials hoffset buffer
    obtain rfl : count = count' := (hx.unique hx').1
    have hset : {n | n ≤ buffer.size ∧ st.Accepts total f offset n} = {n | n ≤ buffer.size ∧
        RoomFor free (dataBlocks (st.fileOf f).bytes.size) offset n} := by
      ext n
      simp only [Set.mem_ofPred_eq, FileStore.Accepts, FileStore.HasRoom, RoomFor]
      omega
    rwa [hset]
  · obtain ⟨hm, hu⟩ := h.inUse
    obtain ⟨hadmits, -⟩ := hu.after (o := .writeAt k offset buffer) ⟨⟨f, hf⟩, hoffset⟩ hx
    obtain rfl : count = 0 := (hadmits f hf).2.1 (Nat.pos_of_ne_zero hdenials)
    refine ⟨⟨Nat.zero_le _, Or.inl rfl⟩, ?_⟩
    rintro n ⟨-, rfl | ⟨hnone, -⟩⟩
    · exact Nat.le_refl 0
    · exact absurd hnone hdenials

theorem accepts_of_replies (h : OnVolume total m st) (hf : st.opened k = some f)
    (hoffset : offset < 2 ^ 64) {count : Nat} (hx : m.Replies (.writeAt k offset buffer) count m') :
    count ≤ buffer.size ∧ st.Accepts total f offset count :=
  (h.writeAt_greatest hf hoffset hx).1

/-- What the volume takes of a buffer in any case is the whole of it, if it takes the whole. -/
theorem writeAt_replies (h : OnVolume total m st) (hf : st.opened k = some f)
    (hoffset : offset < 2 ^ 64) (haccepts : st.Accepts total f offset buffer.size) :
    ∃ m', m.Replies (.writeAt k offset buffer) buffer.size m' := by
  obtain ⟨hm, hu⟩ := h.inUse
  obtain ⟨count, m', hx, -⟩ := hu.attempt_ok (o := .writeAt k offset buffer) ⟨⟨f, hf⟩, hoffset⟩ rfl
  have hgreatest := h.writeAt_greatest hf hoffset hx
  obtain rfl : count = buffer.size :=
    Nat.le_antisymm hgreatest.1.1 (hgreatest.2 ⟨Nat.le_refl _, haccepts⟩)
  exact ⟨m', hx⟩

/-- If there is room for the furthest extension, all of them succeed. -/
theorem exists_extendsAll {targets : List Nat} {last : Nat} (h : OnVolume total m st)
    (hf : st.opened k = some f) (hroom : st.HasRoom total f (last / 512))
    (hle : ∀ t ∈ targets, t ≤ last) (hg : HasGrown (Volume.mapOf total) origin k f m₀ m) :
    ∃ m', ExtendsAll k m targets m' ∧ HasGrown (Volume.mapOf total) origin k f m₀ m' ∧
      OnVolume total m' (st.setBytes f.inode (targets.foldl File.extended (st.fileOf f)).bytes) := by
  induction targets generalizing m st with
  | nil =>
    refine ⟨m, rfl, hg, ?_⟩
    rwa [List.foldl_nil, FileStore.fileOf, FileStore.setBytes_self]
  | cons target rest ih =>
    have htarget : target / 512 ≤ last / 512 := Nat.div_le_div_right (hle _ List.mem_cons_self)
    obtain ⟨id, m₁, hx⟩ := (h.extend_iff hf).2 (hroom.mono htarget)
    obtain ⟨hm, hu⟩ := h.inUse
    have h₁ := h.step (o := .extend k target) ⟨f, hf⟩ hx
    rw [FileStore.after_extend hf] at h₁
    have hsize : ((st.fileOf f).extended target).bytes.size =
        max (st.fileOf f).bytes.size (target + 1) := Bytes.size_padded _ _
    have hroom₁ := (FileStore.hasRoom_setBytes total (last / 512)
      (b := ((st.fileOf f).extended target).bytes) (h.live hf)
      (by rw [hsize]; unfold dataBlocks; omega) (by rw [hsize]; unfold dataBlocks; omega)).2 hroom
    obtain ⟨m', hall, hg', h'⟩ := ih h₁ hf hroom₁
      (fun t ht => hle t (List.mem_cons_of_mem target ht)) (hg.extend hu hf hx)
    refine ⟨m', ⟨id, m₁, hx, hall⟩, hg', ?_⟩
    rwa [FileStore.setBytes_setBytes, FileStore.fileOf_setBytes] at h'

/-- If the volume takes all bytes of some buffers together, it takes them one behind the other. -/
theorem exists_writesAll {buffers : List Bytes} (h : OnVolume total m st)
    (hf : st.opened k = some f) (hoffset : offset < 2 ^ 64)
    (haccepts : st.Accepts total f offset (Bytes.joined buffers).size)
    (hg : HasGrown (Volume.mapOf total) origin k f m₀ m) :
    ∃ m', WritesAll k m offset buffers m' ∧ HasGrown (Volume.mapOf total) origin k f m₀ m' ∧
      OnVolume total m'
        (st.after (.writeAt k offset (Bytes.joined buffers)) (Bytes.joined buffers).size) := by
  induction buffers generalizing m st offset with
  | nil =>
    refine ⟨m, rfl, hg, ?_⟩
    rw [FileStore.after_writeAt hf]
    change OnVolume total m (st.setBytes f.inode (st.fileOf f).bytes)
    rwa [FileStore.fileOf, FileStore.setBytes_self]
  | cons b rest ih =>
    rw [Bytes.joined_cons, Array.size_append] at haccepts ⊢
    have hfirst : st.Accepts total f offset b.size := by
      rcases haccepts with hzero | ⟨hdenials, hroom⟩
      · exact Or.inl (by omega)
      · exact Or.inr ⟨hdenials, hroom.mono (Nat.div_le_div_right (by omega))⟩
    obtain ⟨hm, hu⟩ := h.inUse
    obtain ⟨m₁, hx⟩ := h.writeAt_replies hf hoffset hfirst
    have h₁ := h.step (o := .writeAt k offset b) ⟨⟨f, hf⟩, hoffset⟩ hx
    have hrest := (FileStore.accepts_add_iff hf (h.live hf) hfirst).2 haccepts
    obtain ⟨m', hall, hg', h'⟩ := ih h₁ (FileStore.opened_after_writeAt hf)
      (hfirst.lt_word hoffset) hrest (hg.writeAt hu hf hoffset hx)
    refine ⟨m', ⟨m₁, hx, hall⟩, hg', ?_⟩
    rwa [FileStore.after_writeAt_writeAt hf (Nat.le_refl _)] at h'

end OnVolume

/-- The root directory of a small volume is open, and there is nothing else. -/
theorem exists_opened_root : ∃ (m : Machine SectorArray FreeMap) (st : FileStore) (k : HandleId)
    (f : OpenFile), OnVolume 100 m st ∧ st.opened k = some f ∧ f.denials = 0 ∧ st.occupied = 2 ∧
      (st.fileOf f).bytes.size = 0 := by
  obtain ⟨m, root, k, h⟩ := exists_onVolume_opened 100 (d := SectorArray.filled 100 7)
    (by decide) (by decide)
  have hsize : (((FileStore.initial root).setOpened k
    (some ⟨root, 1, false, 0⟩)).file root).bytes.size = 0 := File.size_blank .directory 0
  refine ⟨m, _, k, _, h, FileStore.opened_setOpened_self _ _ _, rfl, ?_, hsize⟩
  rw [FileStore.occupied_single (s := root) rfl rfl, hsize]
  rfl

end Machine

end InodeVolume

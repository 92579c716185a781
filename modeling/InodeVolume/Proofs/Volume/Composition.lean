import InodeVolume.Proofs.Volume.Room

/-!
Writes compose. A write of two strings of bytes does what a write of the first and then one of the
second behind it do; so only the bytes that were taken matter, and not in how many calls.
-/
namespace InodeVolume

namespace Machine

open Program LawfulBlockDevice

variable {δ : Type} [BlockDevice δ] [LawfulBlockDevice δ] {total : UInt32}
  {m m₁ m' : Machine δ FreeMap} {st : FileStore} {k : HandleId} {f : OpenFile}
  {offset count : Nat} {a b buffer : Bytes}

structure WritesCompose (m : Machine δ FreeMap) (k : HandleId) (offset : Nat) : Prop where
  append {a b : Bytes} {m₁ : Machine δ FreeMap} : m.Replies (.writeAt k offset a) a.size m₁ →
    ∃ (count : Nat) (m₂ m' : Machine δ FreeMap),
      m₁.Replies (.writeAt k (offset + a.size) b) count m₂ ∧
      m.Replies (.writeAt k offset (a ++ b)) (a.size + count : Nat) m' ∧ Alike m₂ m'
  accepted {buffer : Bytes} {count : Nat} {m' : Machine δ FreeMap} :
    m.Replies (.writeAt k offset buffer) count m' →
      ∃ m'', m.Replies (.writeAt k offset (buffer.extract 0 count)) count m'' ∧ Alike m' m''
  bytewise {buffer : Bytes} {count : Nat} {m' : Machine δ FreeMap} :
    m.Replies (.writeAt k offset buffer) count m' →
      ∃ m'', WritesAll k m offset ((buffer.extract 0 count).toList.map fun c => #[c]) m'' ∧
        Alike m' m''

namespace OnVolume

/-- The bytes that a call has taken may be written in any number of calls. -/
theorem writesAll_alike {buffers : List Bytes} (h : OnVolume total m st)
    (hf : st.opened k = some f) (hoffset : offset < 2 ^ 64)
    (hx : m.Replies (.writeAt k offset buffer) count m')
    (hjoined : Bytes.joined buffers = buffer.extract 0 count) :
    ∃ m'', WritesAll k m offset buffers m'' ∧ Alike m' m'' := by
  obtain ⟨hm, hu⟩ := h.inUse
  obtain ⟨origin, -, -, -, hg⟩ := HasGrown.refl hu hf
  obtain ⟨hcount, haccepts⟩ := h.accepts_of_replies hf hoffset hx
  have hsize : (Bytes.joined buffers).size = count := by
    rw [hjoined, Array.size_extract]
    omega
  rw [← hsize] at haccepts
  obtain ⟨m'', hall, hg'', h''⟩ := h.exists_writesAll hf hoffset haccepts hg
  have h' := h.step (o := .writeAt k offset buffer) ⟨⟨f, hf⟩, hoffset⟩ hx
  have hstore : st.after (.writeAt k offset (Bytes.joined buffers)) (Bytes.joined buffers).size =
      st.after (.writeAt k offset buffer) count := by
    rw [FileStore.after_writeAt hf, FileStore.after_writeAt hf, hjoined,
      File.written_extract _ hcount]
  rw [hstore] at h''
  exact ⟨m'', hall, h'.alike_of_hasGrown h'' (FileStore.opened_after_writeAt hf)
    (hg.writeAt hu hf hoffset hx) hg''⟩

theorem writeAt_append (h : OnVolume total m st) (hf : st.opened k = some f)
    (hoffset : offset < 2 ^ 64) (hx : m.Replies (.writeAt k offset a) a.size m₁) :
    ∃ (count : Nat) (m₂ m' : Machine δ FreeMap),
      m₁.Replies (.writeAt k (offset + a.size) b) count m₂ ∧
      m.Replies (.writeAt k offset (a ++ b)) (a.size + count : Nat) m' ∧ Alike m₂ m' := by
  obtain ⟨hm, hu⟩ := h.inUse
  obtain ⟨origin, -, -, -, hg⟩ := HasGrown.refl hu hf
  obtain ⟨-, hfirst⟩ := h.accepts_of_replies hf hoffset hx
  have hoffset' := hfirst.lt_word hoffset
  have h₁ := h.step (o := .writeAt k offset a) ⟨⟨f, hf⟩, hoffset⟩ hx
  have hf₁ : (st.after (.writeAt k offset a) a.size).opened k = some f :=
    FileStore.opened_after_writeAt hf
  obtain ⟨_, hu₁⟩ := h₁.inUse
  obtain ⟨count, m₂, hx₂, -⟩ :=
    hu₁.attempt_ok (o := .writeAt k (offset + a.size) b) ⟨⟨f, hf₁⟩, hoffset'⟩ rfl
  obtain ⟨sum, m', hx', -⟩ :=
    hu.attempt_ok (o := .writeAt k offset (a ++ b)) ⟨⟨f, hf⟩, hoffset⟩ rfl
  obtain ⟨⟨hle₂, htaken₂⟩, hmost₂⟩ := h₁.writeAt_greatest hf₁ hoffset' hx₂
  obtain ⟨⟨hle', htaken'⟩, hmost'⟩ := h.writeAt_greatest hf hoffset hx'
  rw [Array.size_append] at hle' hmost'
  have hadd (n : Nat) := FileStore.accepts_add_iff (n := n) hf (h.live hf) hfirst
  obtain rfl : sum = a.size + count := by
    have hsum : a.size + count ≤ sum := hmost' ⟨by omega, (hadd count).1 htaken₂⟩
    obtain ⟨n, rfl⟩ := Nat.exists_eq_add_of_le (Nat.le_trans (Nat.le_add_right _ _) hsum)
    have hn : n ≤ count := hmost₂ ⟨by omega, (hadd n).2 htaken'⟩
    exact Nat.le_antisymm (Nat.add_le_add_left hn _) hsum
  refine ⟨count, m₂, m', hx₂, hx', ?_⟩
  have h₂ := h₁.step (o := .writeAt k (offset + a.size) b) ⟨⟨f, hf₁⟩, hoffset'⟩ hx₂
  have h' := h.step (o := .writeAt k offset (a ++ b)) ⟨⟨f, hf⟩, hoffset⟩ hx'
  rw [FileStore.after_writeAt_writeAt hf hle₂] at h₂
  exact h₂.alike_of_hasGrown h' (FileStore.opened_after_writeAt hf)
    ((hg.writeAt hu hf hoffset hx).writeAt hu₁ hf₁ hoffset' hx₂) (hg.writeAt hu hf hoffset hx')

theorem writesCompose (h : OnVolume total m st) (hf : st.opened k = some f)
    (hoffset : offset < 2 ^ 64) : WritesCompose m k offset where
  append hx := h.writeAt_append hf hoffset hx
  accepted {buffer count m'} hx := by
    obtain ⟨hcount, -⟩ := h.accepts_of_replies hf hoffset hx
    have hsize : (buffer.extract 0 count).size = count := by
      rw [Array.size_extract]
      omega
    have hjoined : Bytes.joined [buffer.extract 0 count] = buffer.extract 0 count :=
      Array.append_empty
    obtain ⟨m'', ⟨_, hx'', rfl⟩, ha⟩ := h.writesAll_alike hf hoffset hx hjoined
    rw [hsize] at hx''
    exact ⟨_, hx'', ha⟩
  bytewise hx := h.writesAll_alike hf hoffset hx (Bytes.joined_singletons _)

end OnVolume

/-- Five bytes that are written behind the third block of the root directory of a small volume. -/
theorem writesCompose_root_directory : ∃ (m m' : Machine SectorArray FreeMap) (st : FileStore)
    (k : HandleId) (f : OpenFile), OnVolume 100 m st ∧ st.opened k = some f ∧
      m.Replies (.writeAt k 1534 #[1, 2, 3, 4, 5]) (5 : Nat) m' ∧ WritesCompose m k 1534 := by
  obtain ⟨m, st, k, f, h, hf, hdenials, hoccupied, hsize⟩ := exists_opened_root
  have haccepts : st.Accepts 100 f 1534 (#[1, 2, 3, 4, 5] : Bytes).size := by
    refine Or.inr ⟨hdenials, by decide, ?_⟩
    rw [hoccupied, hsize]
    decide
  obtain ⟨m', hx⟩ := h.writeAt_replies hf (by decide) haccepts
  exact ⟨m, m', st, k, f, h, hf, hx, h.writesCompose hf (by decide)⟩

end Machine

end InodeVolume

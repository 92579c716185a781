import InodeVolume.Proofs.Program.Ensures

/-!
A file of the host as a device. Each byte of it is from the last write to its sector, and zero
where nobody has written. A program that stays below the size of an array of sectors does the same
to the array as to a file that begins with the sectors of the array, and nothing to what is behind
them.
-/
namespace InodeVolume

namespace SectorArray

/-- The sectors one behind the other. -/
def toBytes (a : SectorArray) : Bytes := (a.sectors.toList.flatMap Vector.toList).toArray

theorem getElem?_flatMap_toList (sectors : List Sector) (p : Nat) :
    (sectors.flatMap Vector.toList)[p]? =
      (sectors[p / 512]?).map fun s => getElem s (p % 512) (mod_lt_sectorSize p) := by
  induction sectors generalizing p with
  | nil => rfl
  | cons s rest ih =>
    rw [List.flatMap_cons, List.getElem?_append, Vector.length_toList]
    by_cases hp : p < 512
    · have hzero : p / 512 = 0 := by omega
      have hmod : p % 512 = p := by omega
      simp [hp, hzero, hmod]
    · have hdiv : p / 512 = (p - 512) / 512 + 1 := by omega
      have hmod : (p - 512) % 512 = p % 512 := by omega
      rw [if_neg hp, ih, hdiv, List.getElem?_cons_succ]
      simp only [hmod]

theorem size_toBytes (a : SectorArray) : a.toBytes.size = 512 * a.sectors.size := by
  simp [toBytes, List.length_flatMap, List.map_const', Nat.mul_comm]

theorem getElem?_toBytes (a : SectorArray) (p : Nat) :
    a.toBytes[p]? =
      (a.sectors[p / 512]?).map fun s => getElem s (p % 512) (mod_lt_sectorSize p) := by
  rw [toBytes, List.getElem?_toArray, getElem?_flatMap_toList, Array.getElem?_toList]

end SectorArray

namespace HostFile

variable {f : HostFile} {b : Bytes}

theorem byteAt_ofBytes (b : Bytes) (position : Nat) :
    (ofBytes b).byteAt position = b.getD position 0 := by
  simp [byteAt, ofBytes]

theorem toBytes_ofBytes (b : Bytes) : (ofBytes b).toBytes = b := by
  refine Array.ext Array.size_ofFn fun p hp hp' => ?_
  simp [toBytes, byteAt_ofBytes, hp']

theorem size_toBytes (f : HostFile) : f.toBytes.size = f.length := Array.size_ofFn

theorem getElem?_toBytes {p : Nat} (hp : p < f.length) : f.toBytes[p]? = some (f.byteAt p) := by
  rw [toBytes, Array.getElem?_ofFn, dif_pos hp]

section Blocks

variable {writes : List (UInt32 × Sector)}

/-- Whole sectors are written one after another. -/
def writeBlocks (f : HostFile) : List (UInt32 × Sector) → Except Refusal HostFile
  | [] => .ok f
  | (id, s) :: rest => do
    let f ← BlockDevice.writeBlock f id.toNat s.toArray
    f.writeBlocks rest

/-- A byte is from the last write to its sector, or else what it was before. -/
def lastWritten (before : Nat → UInt8) (writes : List (UInt32 × Sector)) (position : Nat) : UInt8 :=
  match writes.reverse.find? fun w => w.1.toNat == position / 512 with
  | some (_, s) => getElem s (position % 512) (mod_lt_sectorSize position)
  | none => before position

/-- The end of a file that was of some length before the writes. -/
def lengthAfterWrites (length : Nat) (writes : List (UInt32 × Sector)) : Nat :=
  writes.foldl (fun n w => max n (512 * (w.1.toNat + 1))) length

theorem lastWritten_cons {before : Nat → UInt8} {id : UInt32} {s : Sector} (p : Nat) :
    lastWritten before ((id, s) :: writes) p =
      lastWritten (fun p => if id.toNat = p / 512 then getElem s (p % 512) (mod_lt_sectorSize p)
        else before p) writes p := by
  rw [lastWritten, lastWritten, List.reverse_cons, List.find?_append]
  cases writes.reverse.find? fun w => w.1.toNat == p / 512 with
  | some w => rfl
  | none =>
    by_cases hid : id.toNat = p / 512
    · simp [hid]
    · simp [hid]

theorem writeBlocks_spec (f : HostFile) (writes : List (UInt32 × Sector)) :
    ∃ f', f.writeBlocks writes = .ok f' ∧ f'.length = lengthAfterWrites f.length writes ∧
      ∀ p, f'.byteAt p = lastWritten f.byteAt writes p := by
  induction writes generalizing f with
  | nil => exact ⟨f, rfl, rfl, fun _ => rfl⟩
  | cons w rest ih =>
    obtain ⟨id, s⟩ := w
    obtain ⟨f', hrun, hlength, hbyte⟩ := ih (BlockDevice.put f id.toNat s)
    have hwrite : BlockDevice.writeBlock f id.toNat s.toArray =
        .ok (BlockDevice.put f id.toNat s) := by
      have haccept : BlockDevice.acceptWrite f id.toNat s.toArray.size = .ok ⟨s.size_toArray⟩ :=
        dif_pos s.size_toArray
      rw [BlockDevice.writeBlock, haccept]
      rfl
    refine ⟨f', ?_, hlength, fun p => ?_⟩
    · rw [writeBlocks, hwrite]
      exact hrun
    · rw [hbyte, lastWritten_cons]
      congr 1
      funext q
      exact byteAt_put f id.toNat q s

/-- Reading takes the bytes that there are, and refuses to read behind the end. -/
theorem readBlock_eq_ofFn (f : HostFile) (index : Nat) {length : Nat} (hpos : 0 < length) :
    BlockDevice.readBlock f index length =
      if 512 * index + length ≤ f.length then .ok (Vector.ofFn fun i => f.byteAt (512 * index + i))
      else .error .incompleteBlock := by
  have hne : length ≠ 0 := Nat.ne_of_gt hpos
  simp only [BlockDevice.readBlock, hne, or_false]
  split
  · split
    · rename_i hwhole
      subst hwhole
      refine congrArg Except.ok (Vector.ext fun i hi => ?_)
      simp [getElem_sectorAt]
    · rfl
  · rfl

end Blocks

open LawfulBlockDevice

/-- A file that holds the sectors of an array of size `N`, and behind them a tail. -/
structure Mirrors (N : Nat) (tail : Bytes) (f : HostFile) (a : SectorArray) : Prop where
  size_eq : a.sectors.size = N
  length_eq : f.length = 512 * N + tail.size
  sectorAt_eq {n : Nat} : n < N → f.sectorAt n = image a n
  tail_eq {i : Nat} : i < tail.size → f.byteAt (512 * N + i) = tail.getD i 0

namespace Mirrors

variable {a : SectorArray} {tail : Bytes} {N n : Nat}

theorem of_toBytes_eq (h : f.toBytes = a.toBytes ++ tail) :
    Mirrors a.sectors.size tail f a := by
  have hlength : f.length = 512 * a.sectors.size + tail.size := by
    rw [← size_toBytes f, h, Array.size_append, a.size_toBytes]
  have hbyte {p : Nat} (hp : p < f.length) : some (f.byteAt p) = (a.toBytes ++ tail)[p]? := by
    rw [← getElem?_toBytes hp, h]
  refine ⟨rfl, hlength, fun {n} hn => Vector.ext fun i hi => ?_, fun {i} hi => ?_⟩
  · have hdiv : (512 * n + i) / 512 = n := by omega
    have hmod : (512 * n + i) % 512 = i := by omega
    rw [getElem_sectorAt]
    refine Option.some.inj ((hbyte (by omega)).trans ?_)
    rw [Array.getElem?_append, if_pos (by rw [a.size_toBytes]; omega), a.getElem?_toBytes]
    simp [hdiv, hmod, hn, image]
  · refine Option.some.inj ((hbyte (by omega)).trans ?_)
    rw [Array.getElem?_append, if_neg (by rw [a.size_toBytes]; omega), a.size_toBytes,
      Nat.add_sub_cancel_left]
    simp [hi]

theorem toBytes_eq (h : Mirrors N tail f a) : f.toBytes = a.toBytes ++ tail := by
  obtain ⟨rfl, hlength, hsectors, htail⟩ := h
  refine Array.ext_getElem? fun p => ?_
  by_cases hp : p < f.length
  · rw [getElem?_toBytes hp, Array.getElem?_append, a.size_toBytes]
    by_cases hsector : p < 512 * a.sectors.size
    · have hdiv : p / 512 < a.sectors.size := by omega
      have hbyte := getElem_sectorAt f (p / 512) (p % 512) (Nat.mod_lt p (by decide))
      rw [Nat.div_add_mod] at hbyte
      rw [if_pos hsector, a.getElem?_toBytes, ← hbyte]
      simp [hsectors hdiv, hdiv, image]
    · have hlt : p - 512 * a.sectors.size < tail.size := by omega
      have hbyte := htail hlt
      rw [Nat.add_sub_cancel' (Nat.le_of_not_lt hsector)] at hbyte
      rw [if_neg hsector, hbyte]
      simp [hlt]
  · rw [Array.getElem?_eq_none (by rw [size_toBytes]; omega),
      Array.getElem?_eq_none (by rw [Array.size_append, a.size_toBytes]; omega)]

theorem lt_size (h : Mirrors N tail f a) (hn : n < N) : n < size a :=
  Nat.lt_of_lt_of_eq hn h.size_eq.symm

/-- The array takes up whole sectors of the file. -/
theorem le_size (h : Mirrors N tail f a) : N ≤ size f := by
  have hlength := h.length_eq
  change N ≤ f.length / 512
  omega

/-- The file answers for a sector of the array as the array does. -/
theorem readBlock_eq (h : Mirrors N tail f a) (hn : n < N) :
    BlockDevice.readBlock f n 512 = BlockDevice.readBlock a n 512 := by
  rw [LawfulBlockDevice.readBlock_eq (Nat.lt_of_lt_of_le hn h.le_size),
    LawfulBlockDevice.readBlock_eq (h.lt_size hn)]
  exact congrArg Except.ok (h.sectorAt_eq hn)

theorem put (h : Mirrors N tail f a) (hn : n < N) (s : Sector) :
    Mirrors N tail (BlockDevice.put f n s) (BlockDevice.put a n s) := by
  obtain ⟨rfl, hlength, hsectors, htail⟩ := h
  refine ⟨size_put (d := a) s hn, ?_, fun {m} hm => ?_, fun {i} hi => ?_⟩
  · change max f.length (512 * n + 512) = _
    omega
  · rw [sectorAt_put, image_put s (d := a) hn]
    by_cases hmn : m = n
    · rw [hmn, Function.update_self, Function.update_self]
    · rw [Function.update_of_ne hmn, Function.update_of_ne hmn, hsectors hm]
  · rw [byteAt_put, if_neg (by omega), htail hi]

/-- A sector of the array has the same bytes in both. -/
theorem content_eq (h : Mirrors N tail f a) (hn : n < N) :
    BlockDevice.content f n = BlockDevice.content a n := by
  obtain ⟨rfl, hlength, hsectors, -⟩ := h
  have hle : 512 * n + 512 ≤ f.length := by omega
  simp [BlockDevice.content, hle, hn, hsectors hn, image]

end Mirrors

end HostFile

namespace Program

/-- The device after each write of a run, in order. -/
def devices {δ α : Type} [BlockDevice δ] : Program Disk α → δ → List δ
  | done _, _ => []
  | fault _, _ => []
  | ask (.read n) next, d => match BlockDevice.readBlock d n 512 with
    | .ok s => devices (next s) d
    | .error _ => []
  | ask (.write n s) next, d => match BlockDevice.acceptWrite d n 512 with
    | .ok _ => BlockDevice.put d n s :: devices (next ()) (BlockDevice.put d n s)
    | .error _ => []
  | ask (.note _) next, d => devices (next ()) d

open LawfulBlockDevice HostFile

variable {α : Type} {f : HostFile} {a : SectorArray} {tail : Bytes} {N : Nat}

/-- A program that stays below the size of the array goes the same way on both. -/
theorem run_mirrors {p : Program Disk α} (h : Mirrors N tail f a)
    (haccesses : ∀ n ∈ p.accesses f, n < N) (journal : Array Event) :
    ∃ x f' a' journal', p.run ⟨f, journal⟩ = (x, ⟨f', journal'⟩) ∧
      p.run ⟨a, journal⟩ = (x, ⟨a', journal'⟩) ∧ Mirrors N tail f' a' ∧
      p.accesses a = p.accesses f ∧ List.Forall₂ (Mirrors N tail) (p.devices f) (p.devices a) ∧
      ∀ w ∈ (World.mk f' journal').writes, w ∈ (World.mk f journal).writes ∨ w.1 < N := by
  induction p generalizing f a journal with
  | done x => exact ⟨.ok x, f, a, journal, rfl, rfl, h, rfl, .nil, fun _ => Or.inl⟩
  | fault e => exact ⟨.error e, f, a, journal, rfl, rfl, h, rfl, .nil, fun _ => Or.inl⟩
  | ask r next ih =>
    cases r with
    | read n =>
      have hn : n < N := haccesses n (by rw [Program.accesses]; exact List.mem_cons_self)
      have hread' := LawfulBlockDevice.readBlock_eq (h.lt_size hn)
      have hread := (h.readBlock_eq hn).trans hread'
      simp only [Program.accesses, hread, List.forall_mem_cons] at haccesses
      simp only [Program.run, Program.accesses, devices, hread, hread', List.cons.injEq, true_and]
      exact ih _ h haccesses.2 journal
    | write n s =>
      have hn : n < N := haccesses n (by rw [Program.accesses]; exact List.mem_cons_self)
      have haccept : BlockDevice.acceptWrite f n 512 = .ok ⟨rfl⟩ := rfl
      have haccept' := acceptWrite_eq (h.lt_size hn)
      rw [Program.accesses, haccept, List.forall_mem_cons] at haccesses
      obtain ⟨x, f', a', journal', hf, ha, hmirrors, heq, hdevices, hwrites⟩ :=
        ih () (h.put hn s) haccesses.2 (journal.push (.wrote n s))
      simp only [Program.run, Program.accesses, devices]
      rw [haccept, haccept']
      refine ⟨x, f', a', journal', hf, ha, hmirrors, congrArg (n :: ·) heq,
        .cons (h.put hn s) hdevices, fun w hw => ?_⟩
      have hpush : (World.mk (BlockDevice.put f n s) (journal.push (.wrote n s))).writes =
          (World.mk f journal).writes ++ [(n, s)] := by simp [World.writes]
      rcases hwrites w hw with hold | hlt
      · rw [hpush, List.mem_append, List.mem_singleton] at hold
        exact hold.imp_right fun hlast => by rwa [hlast]
      · exact Or.inr hlt
    | note m =>
      have hpush : (World.mk f (journal.push (.noted m))).writes =
          (World.mk f journal).writes := by simp [World.writes]
      obtain ⟨x, f', a', journal', hf, ha, hmirrors, heq, hdevices, hwrites⟩ :=
        ih () h haccesses (journal.push (.noted m))
      rw [hpush] at hwrites
      exact ⟨x, f', a', journal', hf, ha, hmirrors, heq, hdevices, hwrites⟩

end Program

end InodeVolume

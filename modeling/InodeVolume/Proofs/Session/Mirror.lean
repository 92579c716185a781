import InodeVolume.Proofs.Device.Mirror
import InodeVolume.Proofs.Volume.Format
import InodeVolume.Session.Report

/-!
Sessions on a file of the host. A session that stays below the size of an array of sectors cannot
tell the array from a file that begins with the bytes of the array, and leaves the rest of the file
alone; beyond any such bound, the file keeps what was last written to each byte.
-/
namespace InodeVolume

namespace Session

theorem firstOfEach_sublist {α : Type} (l : List (Nat × α)) : (firstOfEach l).Sublist l := by
  induction l with
  | nil => exact .slnil
  | cons x rest ih =>
    rw [firstOfEach]
    cases hrest : firstOfEach rest with
    | nil => exact (List.nil_sublist rest).cons_cons x
    | cons y more =>
      rw [hrest] at ih
      dsimp only
      split
      · exact ((List.sublist_cons_self y more).trans ih).cons_cons x
      · exact ih.cons_cons x

namespace State

section Devices

variable {δ ε : Type} [BlockDevice δ] [BlockDevice ε]

/-- The sectors that the commands read or write, in order, up to a fault. -/
def accesses (s : State δ) : List Command → List Nat
  | [] => []
  | c :: rest => (c.execute.run s.workspace).accesses s.device ++
    match s.step (.command c) with
    | .error _ => []
    | .ok (_, s) => s.accesses rest

/-- The device after each write of the commands, in order, up to a fault. -/
def devices (s : State δ) : List Command → List δ
  | [] => []
  | c :: rest => (c.execute.run s.workspace).devices s.device ++
    match s.step (.command c) with
    | .error _ => []
    | .ok (_, s) => s.devices rest

theorem accesses_singleton (s : State δ) (c : Command) :
    s.accesses [c] = (c.execute.run s.workspace).accesses s.device := by
  rw [accesses]
  split <;> exact List.append_nil _

/-- Formatting stays within the size that is asked for. -/
theorem accesses_format_lt [LawfulBlockDevice δ] {d : δ} {ws : Workspace} {name : String}
    {total : UInt32} (h : total.toNat ≤ LawfulBlockDevice.size d) :
    ∀ n ∈ (State.mk d ws).accesses [.format name total], n < total.toNat := by
  have hensures : ((Command.format name total).execute.run ws).Ensures (· < total.toNat)
      (fun _ _ => True) (fun _ _ => True) (LawfulBlockDevice.image d) := by
    refine Program.ensures_bind.2 (Program.ensures_bind.2
      ((Volume.format_ensures (Nat.le_refl total.toNat)).imp fun x d' _ => ?_))
    cases x with
    | error e => trivial
    | ok v => trivial
  rw [accesses_singleton]
  exact hensures.accesses fun n hn => Nat.lt_of_lt_of_le hn h

theorem map_fst_overwritten (d : δ) (writes : List (Nat × Sector)) :
    (overwritten d writes).map Prod.fst = writes.map Prod.fst := by
  induction writes generalizing d with
  | nil => rfl
  | cons w rest ih => exact congrArg (w.1 :: ·) (ih _)

theorem mem_first_of_old {old : List (Nat × Bytes)} {x : Nat × Bytes}
    (h : x ∈ firstOfEach (old.mergeSort fun a b => a.1 ≤ b.1)) : x ∈ old :=
  List.mem_mergeSort.1 ((firstOfEach_sublist _).subset h)

/-- A report looks at a device only in the sectors that were written. -/
theorem report_congr {old : List (Nat × Bytes)} {d : δ} {e : ε}
    (h : ∀ x ∈ old, BlockDevice.content d x.1 = BlockDevice.content e x.1) (ws : Workspace)
    (notices : List Notice) (reply : Reply) :
    report old d ws notices reply = report old e ws notices reply := by
  have hchanged : changedSectors old d = changedSectors old e := by
    refine congrArg (List.map Prod.fst) (List.filter_congr fun x hx => ?_)
    dsimp only
    rw [h x (mem_first_of_old hx)]
  have hdigest : digestSectors d (changedSectors old d) =
      digestSectors e (changedSectors old d) := by
    refine List.foldl_ext _ _ _ fun digest n hn => ?_
    obtain ⟨x, hx, rfl⟩ := List.mem_map.1 hn
    rw [h x (mem_first_of_old (List.mem_of_mem_filter hx))]
  rw [report, report, hdigest, hchanged]

end Devices

open LawfulBlockDevice HostFile

variable {f : HostFile} {a : SectorArray} {tail : Bytes} {N : Nat} {ws : Workspace}

theorem overwritten_mirrors {writes : List (Nat × Sector)} (h : Mirrors N tail f a)
    (hwrites : ∀ w ∈ writes, w.1 < N) : overwritten f writes = overwritten a writes := by
  induction writes generalizing f a with
  | nil => rfl
  | cons w rest ih =>
    have hw : w.1 < N := hwrites w List.mem_cons_self
    rw [overwritten, overwritten, h.content_eq hw,
      ih (h.put hw w.2) fun v hv => hwrites v (List.mem_cons_of_mem w hv)]

theorem step_mirrors {c : Command} (h : Mirrors N tail f a)
    (haccesses : ∀ n ∈ (c.execute.run ws).accesses f, n < N) :
    (c.execute.run ws).accesses a = (c.execute.run ws).accesses f ∧
      List.Forall₂ (Mirrors N tail) ((c.execute.run ws).devices f)
        ((c.execute.run ws).devices a) ∧
      ((∃ e, (State.mk f ws).step (.command c) = .error e ∧
          (State.mk a ws).step (.command c) = .error e) ∨
        ∃ r f' a' ws', (State.mk f ws).step (.command c) = .ok (r, ⟨f', ws'⟩) ∧
          (State.mk a ws).step (.command c) = .ok (r, ⟨a', ws'⟩) ∧ Mirrors N tail f' a') := by
  obtain ⟨x, f', a', journal, hf, ha, hmirrors, heq, hdevices, hwrites⟩ :=
    Program.run_mirrors h haccesses #[]
  refine ⟨heq, hdevices, ?_⟩
  simp only [step, hf, ha]
  cases x with
  | error e => exact Or.inl ⟨e, rfl, rfl⟩
  | ok x =>
    obtain ⟨reply, ws'⟩ := x
    have hbelow : ∀ w ∈ (World.mk f' journal).writes, w.1 < N := fun w hw =>
      (hwrites w hw).resolve_left List.not_mem_nil
    have hold := overwritten_mirrors h hbelow
    have hcontent : ∀ x ∈ overwritten a (World.mk f' journal).writes,
        BlockDevice.content f' x.1 = BlockDevice.content a' x.1 := fun x hx => by
      have hmem := List.mem_map_of_mem (f := Prod.fst) hx
      rw [map_fst_overwritten] at hmem
      obtain ⟨w, hw, hfst⟩ := List.mem_map.1 hmem
      exact hmirrors.content_eq (hfst ▸ hbelow w hw)
    refine Or.inr ⟨_, f', a', ws', rfl, ?_, hmirrors⟩
    rw [hold, report_congr hcontent]
    rfl

/-- A session that stays below the size of the array goes the same way on both. -/
theorem play_mirrors {commands : List Command} (h : Mirrors N tail f a)
    (haccesses : ∀ n ∈ (State.mk f ws).accesses commands, n < N) :
    (State.mk f ws).play (commands.map .command) = (State.mk a ws).play (commands.map .command) ∧
      (State.mk a ws).accesses commands = (State.mk f ws).accesses commands ∧
      List.Forall₂ (Mirrors N tail) ((State.mk f ws).devices commands)
        ((State.mk a ws).devices commands) := by
  induction commands generalizing f a ws with
  | nil => exact ⟨rfl, rfl, .nil⟩
  | cons c rest ih =>
    rw [accesses, List.forall_mem_append] at haccesses
    obtain ⟨heq, hdevices, ⟨e, hf, ha⟩ | ⟨r, f', a', ws', hf, ha, hmirrors⟩⟩ :=
      step_mirrors h haccesses.1
    · simp only [List.map_cons, play, accesses, devices, hf, ha, heq, List.append_nil, true_and]
      exact hdevices
    · simp only [hf] at haccesses
      obtain ⟨hplay, hmore, hforall⟩ := ih hmirrors haccesses.2
      simp only [List.map_cons, play, accesses, devices, hf, ha, heq, hplay, hmore, true_and]
      exact List.rel_append hdevices hforall

end State

end Session

namespace HostFile

open Session

/-- A session that stays below the size of an array of sectors gives the same replies on the array
and on a file that begins with the bytes of the array; after every write the file still does, and
what is behind them and the length of the file stay. After any writes of whole sectors to any file,
a read gives what was last written to each byte, or else what was in the file, or else zero, and is
refused just if it goes behind the end that the file and the writes had. -/
theorem serves_as_sectors :
    (∀ (f : HostFile) (a : SectorArray) (tail : Bytes) (ws : Workspace) (commands : List Command),
      f.toBytes = a.toBytes ++ tail →
      (∀ n ∈ (State.mk f ws).accesses commands, n < a.sectors.size) →
        (State.mk f ws).play (commands.map .command) =
            (State.mk a ws).play (commands.map .command) ∧
          (State.mk a ws).accesses commands = (State.mk f ws).accesses commands ∧
          List.Forall₂
            (fun f' a' => f'.toBytes = a'.toBytes ++ tail ∧ f'.toBytes.size = f.toBytes.size ∧
              a'.sectors.size = a.sectors.size)
            ((State.mk f ws).devices commands) ((State.mk a ws).devices commands)) ∧
      ∀ (b : Bytes) (writes : List (UInt32 × Sector)), ∃ f',
        (ofBytes b).writeBlocks writes = .ok f' ∧ ∀ (id : UInt32) (length : Nat), 0 < length →
          BlockDevice.readBlock f' id.toNat length =
            if 512 * id.toNat + length ≤ lengthAfterWrites b.size writes then
              .ok (Vector.ofFn fun i => lastWritten (b.getD · 0) writes (512 * id.toNat + i))
            else .error .incompleteBlock := by
  refine ⟨fun f a tail ws commands hbytes haccesses => ?_, fun b writes => ?_⟩
  · have hstart := Mirrors.of_toBytes_eq hbytes
    obtain ⟨hplay, heq, hdevices⟩ := State.play_mirrors hstart haccesses
    refine ⟨hplay, heq, hdevices.imp fun f' a' h => ⟨h.toBytes_eq, ?_, h.size_eq⟩⟩
    rw [size_toBytes, size_toBytes, h.length_eq, hstart.length_eq]
  · obtain ⟨f', hrun, hlength, hbyte⟩ := writeBlocks_spec (ofBytes b) writes
    refine ⟨f', hrun, fun id length hpos => ?_⟩
    rw [readBlock_eq_ofFn f' id.toNat hpos, hlength]
    simp only [hbyte, funext (byteAt_ofBytes b)]
    rfl

/-- Formatting six sectors of a file that has three bytes more. A write far behind three bytes
leaves these as they are, and nothing is read from behind the write. -/
theorem serves_as_sectors_format :
    let f := ofBytes ((SectorArray.filled 6 7).toBytes ++ #[1, 2, 3])
    (State.mk f .empty).play [.command (.format "v" 6)] =
        (State.mk (SectorArray.filled 6 7) .empty).play [.command (.format "v" 6)] ∧
      ∃ f', (ofBytes #[1, 2, 3]).writeBlocks [(2, Sector.zero)] = .ok f' ∧
        BlockDevice.readBlock f' 0 3 = .ok #v[1, 2, 3] ∧
        BlockDevice.readBlock f' 2 513 = .error .incompleteBlock := by
  intro f
  have hbytes : f.toBytes = (SectorArray.filled 6 7).toBytes ++ #[1, 2, 3] := toBytes_ofBytes _
  have hsize : 6 ≤ LawfulBlockDevice.size f := (Mirrors.of_toBytes_eq hbytes).le_size
  have hsession := serves_as_sectors.1 f (SectorArray.filled 6 7) #[1, 2, 3] .empty
    [.format "v" 6] hbytes (State.accesses_format_lt hsize)
  obtain ⟨f', hrun, hread⟩ := serves_as_sectors.2 #[1, 2, 3] [(2, Sector.zero)]
  refine ⟨hsession.1, f', hrun, (hread 0 3 (by decide)).trans ?_,
    (hread 2 513 (by decide)).trans (if_neg (by decide))⟩
  rw [if_pos (by decide)]
  decide

end HostFile

end InodeVolume

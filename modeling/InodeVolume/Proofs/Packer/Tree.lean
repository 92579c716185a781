import InodeVolume.Packer.HostTree
import Mathlib.Data.List.Basic

/-!
What a file that is put into a tree changes. The path that named its place leads to it from then on,
and what is at other places stays.
-/
namespace InodeVolume

namespace Packer

namespace HostNode

variable {root child node : HostNode} {entries : List (String × HostNode)} {name other : String}
  {place p q : Place} {names : List String}

theorem lookup_setEntry_self : (setEntry entries name node).lookup name = some node := by
  rw [setEntry]
  split
  · exact List.lookup_cons_self
  · rename_i x hx
    induction entries with
    | nil => cases hx
    | cons e entries ih =>
      obtain ⟨key, old⟩ := e
      by_cases hkey : key = name
      · subst hkey
        simp
      · have hne : (name == key) = false := beq_false_of_ne fun he => hkey he.symm
        rw [List.lookup_cons, hne] at hx
        simpa [hkey, List.lookup_cons, hne] using ih hx

theorem lookup_setEntry_of_ne (hne : other ≠ name) :
    (setEntry entries name node).lookup other = entries.lookup other := by
  have hbeq : (other == name) = false := beq_false_of_ne hne
  rw [setEntry]
  split
  · rw [List.lookup_cons, hbeq]
  · clear * - hbeq
    induction entries with
    | nil => rfl
    | cons e entries ih =>
      obtain ⟨key, old⟩ := e
      by_cases hkey : key = name
      · subst hkey
        simpa [List.lookup_cons, hbeq] using ih
      · simp [hkey, List.lookup_cons, ih]

theorem at?_directory_cons :
    (directory entries).at? (name :: p) = (entries.lookup name).bind fun x => x.at? p := by
  rw [at?]
  cases entries.lookup name <;> rfl

theorem at?_append : root.at? (p ++ q) = (root.at? p).bind fun x => x.at? q := by
  induction p generalizing root with
  | nil => rw [List.nil_append, at?, Option.bind_some]
  | cons name p ih =>
    cases root with
    | file f => rfl
    | directory entries =>
      rw [List.cons_append, at?_directory_cons, at?_directory_cons, Option.bind_assoc]
      exact Option.bind_congr fun x _ => ih

/-- A node is put in an entry by putting it into the node of the entry. -/
theorem put_directory_cons : (directory entries).put (name :: p) node = directory
    (setEntry entries name (((entries.lookup name).getD (directory [])).put p node)) := by
  rw [put]

/-- What is put into a directory is found there. -/
theorem at?_put_append (h : root.at? p = some (directory entries)) :
    (root.put (p ++ [name]) node).at? (p ++ [name]) = some node := by
  induction p generalizing root with
  | nil =>
    obtain rfl : root = directory entries := Option.some.inj h
    rw [List.nil_append, put_directory_cons, at?_directory_cons, lookup_setEntry_self,
      Option.bind_some, put, at?]
  | cons first p ih =>
    cases root with
    | file f => cases h
    | directory entries' =>
      rw [at?_directory_cons, Option.bind_eq_some_iff] at h
      obtain ⟨child, hchild, h⟩ := h
      rw [List.cons_append, put_directory_cons, at?_directory_cons, lookup_setEntry_self,
        Option.bind_some, hchild, Option.getD_some]
      exact ih h

/-- Apart from the place and what leads there nothing changes. -/
theorem at?_put_of_apart (h : ¬ place <+: p) (h' : ¬ p <+: place) :
    (root.put place node).at? p = root.at? p := by
  induction place generalizing root p with
  | nil => exact absurd List.nil_prefix h
  | cons name place ih =>
    cases p with
    | nil => exact absurd List.nil_prefix h'
    | cons first p =>
      cases root with
      | file f => rfl
      | directory entries =>
        rw [put_directory_cons, at?_directory_cons, at?_directory_cons]
        by_cases hfirst : first = name
        · subst hfirst
          rw [lookup_setEntry_self, Option.bind_some,
            ih (fun hp => h (List.cons_prefix_cons.2 ⟨rfl, hp⟩))
              (fun hp => h' (List.cons_prefix_cons.2 ⟨rfl, hp⟩))]
          cases hlookup : entries.lookup first with
          | some child => rfl
          | none =>
            -- There is nothing in a directory that was made for the node.
            cases p with
            | nil => exact absurd (List.cons_prefix_cons.2 ⟨rfl, List.nil_prefix⟩) h'
            | cons second p => rfl
        · rw [lookup_setEntry_of_ne hfirst]

/-- The directories of a tree are there still, with all the names that they had. -/
def Keeps (root after : HostNode) : Prop :=
  ∀ (p : Place) (entries : List (String × HostNode)), root.at? p = some (directory entries) →
    ∃ entries', after.at? p = some (directory entries') ∧
      ∀ name, (entries.lookup name).isSome → (entries'.lookup name).isSome

theorem keeps_put (h : ∀ entries, root.at? place ≠ some (directory entries)) :
    root.Keeps (root.put place node) := by
  induction place generalizing root with
  | nil =>
    intro p entries hp
    cases root with
    | directory entries' => exact absurd rfl (h entries')
    | file f =>
      cases p <;> cases hp
  | cons name place ih =>
    intro p entries hp
    cases root with
    | file f => exact ⟨entries, hp, fun _ hname => hname⟩
    | directory entries' =>
      rw [put_directory_cons]
      cases p with
      | nil =>
        obtain rfl : entries' = entries := by
          cases hp
          rfl
        refine ⟨_, rfl, fun other hother => ?_⟩
        by_cases hname : other = name
        · rw [hname, lookup_setEntry_self, Option.isSome_some]
        · rwa [lookup_setEntry_of_ne hname]
      | cons first p =>
        rw [at?_directory_cons] at hp ⊢
        by_cases hfirst : first = name
        · subst hfirst
          obtain ⟨child, hchild, hp⟩ := Option.bind_eq_some_iff.1 hp
          rw [lookup_setEntry_self, Option.bind_some, hchild, Option.getD_some]
          refine ih (fun es hes => h es ?_) p entries hp
          rw [at?_directory_cons, hchild, Option.bind_some, hes]
        · rw [lookup_setEntry_of_ne hfirst]
          exact ⟨entries, hp, fun _ hname => hname⟩

/-- Paths lead where they led before. -/
theorem Keeps.follow {after : HostNode} (h : root.Keeps after)
    (hfollow : root.follow p names = .ok q) : after.follow p names = .ok q := by
  induction names generalizing p with
  | nil => exact hfollow
  | cons name names ih =>
    rw [HostNode.follow] at hfollow ⊢
    cases hp : root.at? p with
    | none =>
      rw [hp] at hfollow
      cases hfollow
    | some x =>
      cases x with
      | file f =>
        rw [hp] at hfollow
        cases hfollow
      | directory entries =>
        obtain ⟨entries', hp', hnames⟩ := h p entries hp
        simp only [hp, hp'] at hfollow ⊢
        split_ifs at hfollow ⊢ with hstay hup hlong
        · exact ih hfollow
        · exact ih hfollow
        · cases hlookup : entries.lookup name with
          | none =>
            rw [hlookup] at hfollow
            cases hfollow
          | some x =>
            obtain ⟨y, hy⟩ := Option.isSome_iff_exists.1 (hnames name (by rw [hlookup]; rfl))
            rw [hlookup] at hfollow
            rw [hy]
            exact ih hfollow

/-- The names of a path without the slashes at its end. -/
def trimmed (path : String) : List String :=
  ((splitPath path).2.reverse.dropWhile (· == "")).reverse

/-- The place of an entry that can be written: it has a proper name, and is not a directory. -/
def entryIn (root : HostNode) (path last : String) (parent : Place) : Except HostError Place :=
  match root.at? parent with
  | some (directory entries) =>
    if last = "." ∨ last = ".." ∨ (trimmed path).length < (splitPath path).2.length then
      .error .isADirectory
    else if longestName < last.utf8ByteSize then .error .nameTooLong
    else match entries.lookup last with
      | some (directory _) => .error .isADirectory
      | _ => .ok (parent ++ [last])
  | some (file _) => .error .notADirectory
  | none => .error .notFound

theorem writable_eq {path : String} : root.writable path = (checkPath path).bind fun _ =>
    match (trimmed path).getLast? with
    | none => .error .isADirectory
    | some last => (root.follow (splitPath path).1 (trimmed path).dropLast).bind
      (root.entryIn path last) := rfl

theorem exists_of_bind_eq_ok {α β : Type} {x : Except HostError α} {f : α → Except HostError β}
    {b : β} (h : x.bind f = .ok b) : ∃ a, x = .ok a ∧ f a = .ok b := by
  cases x with
  | error e => cases h
  | ok a => exact ⟨a, rfl, h⟩

/-- The entry of a directory that can be written has its name in it, and is no directory. -/
theorem entryIn_ok {path last : String} {parent : Place}
    (h : root.entryIn path last parent = .ok place) : place = parent ++ [last] ∧
      ∃ entries, root.at? parent = some (directory entries) ∧
        ∀ es, entries.lookup last ≠ some (directory es) := by
  rw [entryIn] at h
  split at h
  · rename_i entries hparent
    split_ifs at h
    split at h
    · cases h
    · rename_i hfile
      cases h
      exact ⟨rfl, entries, hparent, hfile⟩
  · cases h
  · cases h

theorem Keeps.entryIn {after : HostNode} {path last : String} {parent : Place}
    (h : root.Keeps after) (hplace : ∀ es, after.at? place ≠ some (directory es))
    (hentry : root.entryIn path last parent = .ok place) :
    after.entryIn path last parent = .ok place := by
  obtain ⟨rfl, entries, hparent, -⟩ := entryIn_ok hentry
  obtain ⟨entries', hparent', -⟩ := h parent entries hparent
  rw [HostNode.entryIn, hparent] at hentry
  rw [HostNode.entryIn, hparent']
  dsimp only at hentry ⊢
  split_ifs at hentry ⊢
  split
  · rename_i es hes
    refine absurd ?_ (hplace es)
    rw [at?_append, hparent', Option.bind_some, at?_directory_cons, hes, Option.bind_some, at?]
  · rfl

/-- A path that can be written names an entry of a directory. -/
theorem writable_ok {path : String} (h : root.writable path = .ok place) :
    checkPath path = .ok () ∧ ∃ last parent, (trimmed path).getLast? = some last ∧
      root.follow (splitPath path).1 (trimmed path).dropLast = .ok parent ∧
      root.entryIn path last parent = .ok place := by
  obtain ⟨⟨⟩, hcheck, h⟩ := exists_of_bind_eq_ok (writable_eq.symm.trans h)
  refine ⟨hcheck, ?_⟩
  cases hlast : (trimmed path).getLast? with
  | none =>
    rw [hlast] at h
    cases h
  | some last =>
    rw [hlast] at h
    obtain ⟨parent, hfollow, hentry⟩ := exists_of_bind_eq_ok h
    exact ⟨last, parent, rfl, hfollow, hentry⟩

theorem Keeps.writable {after : HostNode} {path : String} (h : root.Keeps after)
    (hplace : ∀ es, after.at? place ≠ some (directory es))
    (hwritable : root.writable path = .ok place) : after.writable path = .ok place := by
  obtain ⟨hcheck, last, parent, hlast, hfollow, hentry⟩ := writable_ok hwritable
  rw [writable_eq, hcheck, hlast, h.follow hfollow]
  exact h.entryIn hplace hentry

/-- A file has come to the place that a path names: the path leads to it now, and elsewhere the tree
is the one from before. -/
structure Receives (before : HostNode) (path : String) (place : Place) (f : HostFile)
    (after : HostNode) : Prop where
  writable : after.writable path = .ok place
  at_place : after.at? place = some (file f)
  elsewhere {p : Place} : ¬ place <+: p → ¬ p <+: place → after.at? p = before.at? p

/-- A file that is put where a path can be written has come there. -/
theorem receives_put {path : String} {f : HostFile} (h : root.writable path = .ok place) :
    root.Receives path place f (root.put place (file f)) := by
  obtain ⟨-, last, parent, -, -, hentry⟩ := writable_ok h
  obtain ⟨rfl, entries, hparent, hfile⟩ := entryIn_ok hentry
  have hput : (root.put (parent ++ [last]) (file f)).at? (parent ++ [last]) = some (file f) :=
    at?_put_append hparent
  have hkeeps : root.Keeps (root.put (parent ++ [last]) (file f)) := by
    refine keeps_put fun es hes => ?_
    rw [at?_append, hparent, Option.bind_some, at?_directory_cons] at hes
    obtain ⟨x, hx, hdirectory⟩ := Option.bind_eq_some_iff.1 hes
    rw [at?] at hdirectory
    exact hfile es (hx.trans hdirectory)
  refine ⟨hkeeps.writable (fun es hes => ?_) h, hput, at?_put_of_apart⟩
  rw [hput] at hes
  cases hes

end HostNode

end Packer

end InodeVolume

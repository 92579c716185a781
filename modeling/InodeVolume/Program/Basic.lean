import InodeVolume.Fault

/-!
Programs over an interface: a finite dialogue of requests and replies that ends with a result or
with a fault. What a request does is left to whoever runs the program, so that one program can
run on any device, be cut short after any request, or be served by any allocator.
-/
namespace InodeVolume

/-- A set of requests, each with its own type of reply. -/
structure Interface where
  Request : Type
  Reply : Request → Type

inductive Program (I : Interface) (α : Type) where
  | done (a : α)
  | fault (f : Fault)
  | ask (r : I.Request) (next : I.Reply r → Program I α)

namespace Program

variable {I : Interface} {α β γ : Type}

def bind : Program I α → (α → Program I β) → Program I β
  | done a, k => k a
  | fault f, _ => fault f
  | ask r next, k => ask r fun x => (next x).bind k

instance : Monad (Program I) where
  pure := done
  bind := bind

@[simp] theorem pure_eq (a : α) : (pure a : Program I α) = done a := rfl

@[simp] theorem bind_eq (p : Program I α) (k : α → Program I β) : p >>= k = p.bind k := rfl

@[simp] theorem done_bind (a : α) (k : α → Program I β) : (done a).bind k = k a := rfl

@[simp] theorem fault_bind (f : Fault) (k : α → Program I β) : (fault f).bind k = fault f := rfl

@[simp] theorem ask_bind (r : I.Request) (next : I.Reply r → Program I α)
    (k : α → Program I β) : (ask r next).bind k = ask r fun x => (next x).bind k := rfl

@[simp] theorem bind_done (p : Program I α) : p.bind done = p := by
  induction p with
  | done a => rfl
  | fault f => rfl
  | ask r next ih => simp [ih]

theorem bind_bind (p : Program I α) (k : α → Program I β) (l : β → Program I γ) :
    (p.bind k).bind l = p.bind fun a => (k a).bind l := by
  induction p with
  | done a => rfl
  | fault f => rfl
  | ask r next ih => simp [ih]

instance : LawfulMonad (Program I) :=
  LawfulMonad.mk' (Program I) bind_done (fun _ _ => rfl) bind_bind

/-- Puts one request. -/
def request (r : I.Request) : Program I (I.Reply r) := ask r done

def breach (b : Breach) : Program I α := fault (.breach b)

/-- Goes on only if `p` holds. -/
def require (p : Prop) [Decidable p] (b : Breach) : Program I Unit :=
  if p then done () else breach b

def getOrBreach (o : Option α) (b : Breach) : Program I α :=
  match o with
  | some a => done a
  | none => breach b

/-- Stores a number as a word. -/
def word (n : Nat) : Program I UInt32 := do
  require (n < 0x100000000) .wordOverflow
  return UInt32.ofNat n

/-- The sum of two 64-bit numbers. -/
def sum (m n : Nat) : Program I Nat := do
  require (m + n < 0x10000000000000000) .sumOverflow
  return m + n

/-- The difference of two numbers that stays in them. -/
def difference (m n : Nat) : Program I Nat := do
  require (n ≤ m) .differenceOverflow
  return m - n

/-- Runs `step` for `count` numbers from `first` on. -/
def forRange (first count : Nat) (step : Nat → Program I Unit) : Program I Unit :=
  match count with
  | 0 => done ()
  | count + 1 => do
    step first
    forRange (first + 1) count step

end Program

end InodeVolume

/-!
# BunServe.Lib.Reader

Sequential readers: a reader consumes symbols from the front of a list and
answers a value with what is left, or fails.

`Reads p xs a` is the specification of a reader against the output of a
writer: put in front of anything, `xs` makes `p` answer `a` and stop exactly
behind `xs`.  It composes along `bind`, so a codec is verified clause by
clause, in the order in which it writes.
-/

namespace BunServe

/-- A reader over symbols of type `S`. -/
abbrev Reader (S : Type) := StateT (List S) Option

namespace Reader

variable {S α β : Type}

/-- The reader that fails. -/
def fail : Reader S α := fun _ => none

/-- Take one symbol. -/
def next : Reader S S
  | [] => none
  | b :: bs => some (b, bs)

/-- `p` reads `a` from `xs` and leaves what follows `xs`. -/
def Reads (p : Reader S α) (xs : List S) (a : α) : Prop :=
  ∀ rest, p (xs ++ rest) = some (a, rest)

variable {p : Reader S α} {xs : List S} {a : α}

theorem reads_pure (a : α) : Reads (pure a : Reader S α) [] a := fun _ => rfl

theorem reads_next (b : S) : Reads (next : Reader S S) [b] b := fun _ => rfl

theorem Reads.bind {f : α → Reader S β} {ys : List S} {b : β}
    (hp : Reads p xs a) (hf : Reads (f a) ys b) : Reads (p >>= f) (xs ++ ys) b := by
  intro rest
  show (p (xs ++ ys ++ rest)).bind (fun r => f r.1 r.2) = some (b, rest)
  rw [List.append_assoc, hp (ys ++ rest)]
  exact hf rest

theorem Reads.map {f : α → β} (hp : Reads p xs a) : Reads (p >>= fun x => pure (f x)) xs (f a) := by
  have := hp.bind (f := fun x => pure (f x)) (reads_pure (f a))
  rwa [List.append_nil] at this

theorem Reads.run (hp : Reads p xs a) : p xs = some (a, []) := by
  have := hp []
  rwa [List.append_nil] at this

/-- Read `n` values with one reader. -/
def times (p : Reader S α) : Nat → Reader S (List α)
  | 0 => pure []
  | n + 1 => do
      let a ← p
      let as ← times p n
      pure (a :: as)

theorem reads_times {p : Reader S β} (write : α → List S) (result : α → β) {as : List α}
    (h : ∀ a ∈ as, Reads p (write a) (result a)) :
    Reads (times p as.length) (as.flatMap write) (as.map result) := by
  induction as with
  | nil => exact reads_pure []
  | cons a as ih =>
    have ha : Reads p (write a) (result a) := h a (by simp)
    have has := ih fun a' h' => h a' (by simp [h'])
    exact ha.bind has.map

end Reader

end BunServe

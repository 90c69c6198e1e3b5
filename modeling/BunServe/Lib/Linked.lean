import Mathlib.Data.List.Basic
import Mathlib.Data.List.Nodup
import Mathlib.Logic.Function.Basic

/-!
# BunServe.Lib.Linked

Linked lists on a heap: nodes are numbers, a link is a number or none.

`Chain next a is b` says that following `next` from the link `a` visits exactly
`is` and then shows `b`.  Two mutable lists are built on it:

* `Fifo` — singly linked, appended at the tail and shifted at the head;
* `Line` — doubly linked and intrusive: appending hands out the node, and a
  node is taken out from anywhere without a search.

A list that is `Ok` threads its own `ids`; every operation keeps that and does
to the ids what its name says, and nothing outside this module looks at a link.
-/

namespace BunServe

open Function (comp_update update update_eq_self update_of_ne update_self)

/-! ## chains of links -/

/-- Following `next` from `a` visits `is`, then shows `b`. -/
def Chain (next : Nat → Option Nat) : Option Nat → List Nat → Option Nat → Prop
  | a, [], b => a = b
  | a, i :: is, b => a = some i ∧ Chain next (next i) is b

/-- The nodes met in `n` steps from `a`. -/
def walk (next : Nat → Option Nat) : Nat → Option Nat → List Nat
  | 0, _ => []
  | _, none => []
  | n + 1, some i => i :: walk next n (next i)

namespace Chain

variable {next next' : Nat → Option Nat} {a b c : Option Nat} {is js : List Nat} {i p : Nat}

theorem append_iff : Chain next a (is ++ js) b ↔ ∃ c, Chain next a is c ∧ Chain next c js b := by
  induction is generalizing a with
  | nil => simp [Chain]
  | cons i is ih => simp [Chain, ih, and_assoc]

/-- Only the links of the nodes visited matter. -/
theorem congr (h : Chain next a is b) (heq : ∀ i ∈ is, next' i = next i) : Chain next' a is b := by
  induction is generalizing a with
  | nil => exact h
  | cons i is ih =>
    obtain ⟨ha, hrest⟩ := h
    have hi : next' i = next i := heq i (by simp)
    refine ⟨ha, ?_⟩
    rw [hi]
    exact ih hrest fun j hj => heq j (List.mem_cons_of_mem _ hj)

/-- The links of other nodes do not matter. -/
theorem update_of_notMem (h : Chain next a is b) (hi : i ∉ is) : Chain (update next i c) a is b :=
  h.congr fun _ hj => update_of_ne (ne_of_mem_of_not_mem hj hi) _ _

theorem start_eq (h : Chain next a is none) : a = is.head? := by
  cases is with
  | nil => exact h
  | cons i is => exact h.1

/-- What comes after a node is what its link shows. -/
theorem after (h : Chain next a (is ++ i :: js) b) : Chain next (next i) js b := by
  obtain ⟨c, -, h⟩ := append_iff.mp h
  exact h.2

/-- Changing the link of the last node changes where the chain leads. -/
theorem redirect (h : Chain next a (is ++ [p]) b) (hp : p ∉ is) :
    Chain (update next p c) a (is ++ [p]) c := by
  obtain ⟨d, his, hlast⟩ := append_iff.mp h
  exact append_iff.mpr ⟨d, his.update_of_notMem hp, hlast.1, update_self ..⟩

theorem walk_eq (h : Chain next a is none) : walk next is.length a = is := by
  induction is generalizing a with
  | nil => cases a <;> rfl
  | cons i is ih =>
    obtain ⟨rfl, hrest⟩ := h
    simp [walk, ih hrest]

/-- Taking `i` out of a chain by redirecting the node before it. -/
theorem bypass (h : Chain next a (is ++ p :: i :: js) b) (hn : (is ++ p :: i :: js).Nodup) :
    Chain (update next p (next i)) a (is ++ p :: js) b := by
  have hjs : Chain next (next i) js b := by
    exact after (show Chain next a ((is ++ [p]) ++ i :: js) b by simpa using h)
  obtain ⟨c, hc, -⟩ := append_iff.mp (show Chain next a ((is ++ [p]) ++ i :: js) b by simpa using h)
  have hp : p ∉ is ∧ p ∉ js := by
    have hnd := List.nodup_append.mp hn
    constructor
    · intro hmem
      exact hnd.2.2 p hmem p (by simp) rfl
    · intro hmem
      have := hnd.2.1
      simp [hmem] at this
  have := append_iff.mpr ⟨_, hc.redirect hp.1, hjs.update_of_notMem hp.2⟩
  simpa using this

theorem snoc (h : Chain next a is none) (hnodup : is.Nodup) (hi : i ∉ is)
    (hnil : is = [] → c = some i ∧ next' i = none)
    (hlast : ∀ p, is.getLast? = some p →
      c = a ∧ next' = update (update next i none) p (some i)) : Chain next' c (is ++ [i]) none := by
  cases List.eq_nil_or_concat is with
  | inl hempty =>
    subst hempty
    exact hnil rfl
  | inr hconcat =>
    obtain ⟨is', p, rfl⟩ := hconcat
    rw [List.concat_eq_append] at *
    obtain ⟨rfl, rfl⟩ := hlast p (by simp)
    have hp : p ∉ is' := fun hmem => (List.nodup_append.mp hnodup).2.2 p hmem p (by simp) rfl
    have hne : i ≠ p := fun heq => hi (by simp [heq])
    refine append_iff.mpr ⟨some i, (h.update_of_notMem hi).redirect hp, rfl, ?_⟩
    show update (update next i none) p (some i) i = none
    rw [update_of_ne hne, update_self]

end Chain

theorem allocated_snoc {is : List Nat} {n : Nat} (h : ∀ i ∈ is, i < n) (hnodup : is.Nodup) :
    n ∉ is ∧ (is ++ [n]).Nodup ∧ ∀ i ∈ is ++ [n], i < n + 1 := by
  have hn : n ∉ is := fun hmem => Nat.lt_irrefl _ (h n hmem)
  refine ⟨hn, by simpa using hnodup.concat hn, fun i hi => ?_⟩
  rcases List.mem_append.mp hi with hi | hi
  · exact Nat.lt_succ_of_lt (h i hi)
  · exact (List.mem_singleton.mp hi) ▸ Nat.lt_succ_self n

/-! ## the singly linked queue -/

/-- A node of a queue. -/
structure FifoNode (T : Type) where
  value : T
  next : Option Nat
  deriving Inhabited

/-- A singly linked queue and the nodes it was given; `fresh` is the next node
to be allocated. -/
structure Fifo (T : Type) where
  nodes : Nat → FifoNode T
  fresh : Nat
  head : Option Nat
  tail : Option Nat
  size : Nat

variable {is : List Nat}

namespace Fifo

variable {T : Type}

/-- An empty queue. -/
def create [Inhabited T] : Fifo T := ⟨fun _ => default, 0, none, none, 0⟩

/-- The link of a node. -/
def next (f : Fifo T) (i : Nat) : Option Nat := (f.nodes i).next

/-- The value of a node. -/
def value (f : Fifo T) (i : Nat) : T := (f.nodes i).value

/-- `node.next = p`. -/
def setNext (f : Fifo T) (i : Nat) (p : Option Nat) : Fifo T :=
  { f with nodes := update f.nodes i { f.nodes i with next := p } }

/-- Allocate a node for `t`, linked to nothing. -/
def alloc (f : Fifo T) (t : T) : Fifo T :=
  { f with nodes := update f.nodes f.fresh ⟨t, none⟩, fresh := f.fresh + 1 }

/-- Append a node for `t`. -/
def push (f : Fifo T) (t : T) : Fifo T :=
  let node := f.fresh
  let f := f.alloc t
  let f := match f.tail with
    | some tail => f.setNext tail (some node)
    | none => { f with head := some node }
  { f with tail := some node, size := f.size + 1 }

/-- Unlink the oldest node. -/
def shift (f : Fifo T) : Option (T × Fifo T) :=
  match f.head with
  | none => none
  | some node =>
    let f := { f with head := f.next node }
    let f := if f.head = none then { f with tail := none } else f
    let f := { f with size := f.size - 1 }
    some (f.value node, f.setNext node none)

/-- The nodes, oldest first. -/
def ids (f : Fifo T) : List Nat := walk f.next f.size f.head

/-- The values, oldest first. -/
def list (f : Fifo T) : List T := f.ids.map f.value

/-- `f` threads `is`. -/
structure Holds (f : Fifo T) (is : List Nat) : Prop where
  forward : Chain f.next f.head is none
  last : f.tail = is.getLast?
  length : f.size = is.length
  nodup : is.Nodup
  allocated : ∀ i ∈ is, i < f.fresh

/-- The links of `f` are in order. -/
def Ok (f : Fifo T) : Prop := f.Holds f.ids

@[simp] theorem next_setNext (f : Fifo T) (i : Nat) (p : Option Nat) :
    (f.setNext i p).next = update f.next i p :=
  comp_update FifoNode.next f.nodes i _

@[simp] theorem value_setNext (f : Fifo T) (i : Nat) (p : Option Nat) :
    (f.setNext i p).value = f.value :=
  (comp_update FifoNode.value f.nodes i _).trans (update_eq_self i f.value)

@[simp] theorem next_alloc (f : Fifo T) (t : T) : (f.alloc t).next = update f.next f.fresh none :=
  comp_update FifoNode.next f.nodes _ _

@[simp] theorem value_alloc (f : Fifo T) (t : T) :
    (f.alloc t).value = update f.value f.fresh t :=
  comp_update FifoNode.value f.nodes _ _

variable {f : Fifo T}

theorem Holds.ids_eq (h : f.Holds is) : f.ids = is := by
  rw [ids, h.length]
  exact h.forward.walk_eq

theorem Holds.ok (h : f.Holds is) : f.Ok := by
  rw [Ok, h.ids_eq]
  exact h

theorem Ok.size_eq (h : f.Ok) : f.size = f.list.length := by
  rw [list, List.length_map]
  exact h.length

theorem holds_create [Inhabited T] : (create : Fifo T).Holds [] :=
  { forward := rfl, last := rfl, length := rfl, nodup := by simp, allocated := by simp }

theorem holds_push (h : f.Holds is) (t : T) : (f.push t).Holds (is ++ [f.fresh]) := by
  obtain ⟨hfresh, hnodup, hallocated⟩ := allocated_snoc h.allocated h.nodup
  have hforward : Chain (f.push t).next (f.push t).head (is ++ [f.fresh]) none := by
    refine h.forward.snoc h.nodup hfresh (fun hnil => ?_) fun p hp => ?_
    · have htail : f.tail = none := by rw [h.last, hnil]; rfl
      simp [push, alloc, htail, next]
    · have htail : (f.alloc t).tail = some p := h.last.trans hp
      rw [← next_alloc f t, ← next_setNext]
      simp only [push, htail]
      exact ⟨rfl, rfl⟩
  have hfields : (f.push t).tail = some f.fresh ∧ (f.push t).size = f.size + 1 ∧
      (f.push t).fresh = f.fresh + 1 := by
    cases htail : f.tail with
    | none => simp [push, alloc, htail]
    | some p => simp [push, alloc, setNext, htail]
  refine ⟨hforward, ?_, ?_, hnodup, hfields.2.2 ▸ hallocated⟩
  · rw [hfields.1]; simp
  · rw [hfields.2.1, h.length]; simp

theorem value_push (f : Fifo T) (t : T) : (f.push t).value = update f.value f.fresh t := by
  rw [← value_alloc]
  unfold push
  cases hs : (f.alloc t).tail with
  | none => simp only [hs]; rfl
  | some p => simp only [hs]; exact value_setNext _ p _

theorem Ok.push (h : f.Ok) (t : T) : (f.push t).Ok := (holds_push h t).ok

theorem Ok.list_push (h : f.Ok) (t : T) : (f.push t).list = f.list ++ [t] := by
  have hfresh : f.fresh ∉ f.ids := fun hmem => Nat.lt_irrefl _ (h.allocated _ hmem)
  have hold : f.ids.map (update f.value f.fresh t) = f.ids.map f.value := by
    apply List.map_congr_left
    intro j hj
    have hne : j ≠ f.fresh := fun heq => hfresh (heq ▸ hj)
    exact update_of_ne hne _ _
  rw [list, (holds_push h t).ids_eq, value_push, List.map_append, hold]
  simp [list]

theorem Ok.shift (h : f.Ok) :
    (f.list = [] ∧ f.shift = none) ∨
      ∃ t g, f.shift = some (t, g) ∧ g.Ok ∧ f.list = t :: g.list := by
  have hholds : f.Holds f.ids := h
  rw [list]
  cases hids : f.ids with
  | nil =>
    rw [hids] at hholds
    have hhead : f.head = none := hholds.forward
    left
    exact ⟨rfl, by simp [Fifo.shift, hhead]⟩
  | cons i is =>
    right
    rw [hids] at hholds
    have hhead : f.head = some i := hholds.forward.1
    have hrest : Chain f.next (f.next i) is none := hholds.forward.2
    have hnodup := List.nodup_cons.mp hholds.nodup
    obtain ⟨g, hg⟩ : ∃ g, f.shift = some (f.value i, g) ∧ g.next = update f.next i none ∧
        g.head = f.next i ∧ g.tail = is.getLast? ∧ g.size = f.size - 1 ∧ g.fresh = f.fresh ∧
        g.value = f.value := by
      simp only [Fifo.shift, hhead]
      by_cases hnone : f.next i = none
      · have hnil : is = [] := by
          rw [hnone] at hrest
          cases is with
          | nil => rfl
          | cons j js => exact absurd hrest.1 (by simp)
        rw [if_pos hnone]
        refine ⟨_, rfl, next_setNext _ i none, rfl, by simp [setNext, hnil], rfl, rfl, ?_⟩
        exact value_setNext _ i none
      · rw [if_neg hnone]
        refine ⟨_, rfl, next_setNext _ i none, rfl, ?_, rfl, rfl, ?_⟩
        · show f.tail = is.getLast?
          rw [hholds.last]
          cases is with
          | nil => exact absurd hrest hnone
          | cons j js => simp
        · exact value_setNext _ i none
    obtain ⟨hshift, hnext, hghead, htail, hsize, hfresh, hvalue⟩ := hg
    have hg : g.Holds is := by
      refine ⟨?_, htail, ?_, hnodup.2, ?_⟩
      · rw [hnext, hghead]
        exact hrest.update_of_notMem hnodup.1
      · rw [hsize, hholds.length]
        rfl
      · intro j hj
        rw [hfresh]
        exact hholds.allocated j (List.mem_cons_of_mem _ hj)
    refine ⟨f.value i, g, hshift, hg.ok, ?_⟩
    rw [List.map_cons, list, hg.ids_eq, hvalue]

end Fifo

/-! ## the doubly linked line -/

/-- A node of a line. -/
structure LineNode (K : Type) where
  key : K
  prev : Option Nat
  next : Option Nat
  deriving Inhabited

/-- A doubly linked list and the nodes it was given; `fresh` is the next node
to be allocated. -/
structure Line (K : Type) where
  nodes : Nat → LineNode K
  fresh : Nat
  head : Option Nat
  tail : Option Nat
  size : Nat

namespace Line

variable {K : Type}

/-- An empty line. -/
def create [Inhabited K] : Line K := ⟨fun _ => default, 0, none, none, 0⟩

/-- The key a node names. -/
def key (l : Line K) (i : Nat) : K := (l.nodes i).key

/-- The link towards the head. -/
def prev (l : Line K) (i : Nat) : Option Nat := (l.nodes i).prev

/-- The link towards the tail. -/
def next (l : Line K) (i : Nat) : Option Nat := (l.nodes i).next

/-- `node.next = p`. -/
def setNext (l : Line K) (i : Nat) (p : Option Nat) : Line K :=
  { l with nodes := update l.nodes i { l.nodes i with next := p } }

/-- `node.prev = p`. -/
def setPrev (l : Line K) (i : Nat) (p : Option Nat) : Line K :=
  { l with nodes := update l.nodes i { l.nodes i with prev := p } }

/-- Allocate a node for `key` behind the tail. -/
def alloc (l : Line K) (key : K) : Line K :=
  { l with nodes := update l.nodes l.fresh ⟨key, l.tail, none⟩, fresh := l.fresh + 1 }

/-- Append a node for `key` and hand it out. -/
def append (l : Line K) (key : K) : Nat × Line K :=
  let node := l.fresh
  let l := l.alloc key
  let l := match l.tail with
    | some tail => l.setNext tail (some node)
    | none => { l with head := some node }
  (node, { l with tail := some node, size := l.size + 1 })

/-- Let the node before `i` skip `i`. -/
def skipNext (l : Line K) (i : Nat) : Line K :=
  match l.prev i with
  | some p => l.setNext p (l.next i)
  | none => { l with head := l.next i }

/-- Let the node after `i` skip `i`. -/
def skipPrev (l : Line K) (i : Nat) : Line K :=
  match l.next i with
  | some n => l.setPrev n (l.prev i)
  | none => { l with tail := l.prev i }

/-- Take a linked node out. -/
def remove (l : Line K) (i : Nat) : Line K :=
  let l := ((l.skipNext i).skipPrev i).setPrev i none
  let l := l.setNext i none
  { l with size := l.size - 1 }

/-- The nodes from the head. -/
def ids (l : Line K) : List Nat := walk l.next l.size l.head

/-- The keys from the head. -/
def keys (l : Line K) : List K := l.ids.map l.key

/-- `l` threads `is` in both directions. -/
structure Holds (l : Line K) (is : List Nat) : Prop where
  forward : Chain l.next l.head is none
  backward : Chain l.prev l.tail is.reverse none
  length : l.size = is.length
  nodup : is.Nodup
  allocated : ∀ i ∈ is, i < l.fresh

/-- The links of `l` are in order. -/
def Ok (l : Line K) : Prop := l.Holds l.ids

@[simp] theorem next_setNext (l : Line K) (i : Nat) (p : Option Nat) :
    (l.setNext i p).next = update l.next i p :=
  comp_update LineNode.next l.nodes i _

@[simp] theorem prev_setNext (l : Line K) (i : Nat) (p : Option Nat) :
    (l.setNext i p).prev = l.prev :=
  (comp_update LineNode.prev l.nodes i _).trans (update_eq_self i l.prev)

@[simp] theorem key_setNext (l : Line K) (i : Nat) (p : Option Nat) : (l.setNext i p).key = l.key :=
  (comp_update LineNode.key l.nodes i _).trans (update_eq_self i l.key)

@[simp] theorem prev_setPrev (l : Line K) (i : Nat) (p : Option Nat) :
    (l.setPrev i p).prev = update l.prev i p :=
  comp_update LineNode.prev l.nodes i _

@[simp] theorem next_setPrev (l : Line K) (i : Nat) (p : Option Nat) :
    (l.setPrev i p).next = l.next :=
  (comp_update LineNode.next l.nodes i _).trans (update_eq_self i l.next)

@[simp] theorem key_setPrev (l : Line K) (i : Nat) (p : Option Nat) : (l.setPrev i p).key = l.key :=
  (comp_update LineNode.key l.nodes i _).trans (update_eq_self i l.key)

theorem next_alloc (l : Line K) (k : K) : (l.alloc k).next = update l.next l.fresh none :=
  comp_update LineNode.next l.nodes _ _

theorem prev_alloc (l : Line K) (k : K) : (l.alloc k).prev = update l.prev l.fresh l.tail :=
  comp_update LineNode.prev l.nodes _ _

theorem key_alloc (l : Line K) (k : K) : (l.alloc k).key = update l.key l.fresh k :=
  comp_update LineNode.key l.nodes _ _

variable {l : Line K}

theorem Holds.ids_eq (h : l.Holds is) : l.ids = is := by
  rw [ids, h.length]
  exact h.forward.walk_eq

theorem Holds.ok (h : l.Holds is) : l.Ok := by
  rw [Ok, h.ids_eq]
  exact h

theorem Ok.size_eq (h : l.Ok) : l.size = l.ids.length := h.length

theorem Ok.head_eq (h : l.Ok) : l.head = l.ids.head? := h.forward.start_eq

theorem holds_create [Inhabited K] : (create : Line K).Holds [] :=
  { forward := rfl, backward := rfl, length := rfl, nodup := by simp, allocated := by simp }

/-! ### appending -/

theorem append_fields (l : Line K) (k : K) :
    (l.append k).2.tail = some l.fresh ∧ (l.append k).2.size = l.size + 1 ∧
      (l.append k).2.fresh = l.fresh + 1 := by
  cases htail : l.tail with
  | none => simp [append, alloc, htail]
  | some p => simp [append, alloc, setNext, htail]

theorem key_append (l : Line K) (k : K) : (l.append k).2.key = update l.key l.fresh k := by
  rw [← key_alloc]
  cases htail : l.tail with
  | none =>
    simp only [append, show (l.alloc k).tail = none from htail]
    rfl
  | some p =>
    simp only [append, show (l.alloc k).tail = some p from htail]
    exact key_setNext _ p _

theorem prev_append (l : Line K) (k : K) : (l.append k).2.prev = update l.prev l.fresh l.tail := by
  rw [← prev_alloc l k]
  cases htail : l.tail with
  | none =>
    simp only [append, show (l.alloc k).tail = none from htail]
    rfl
  | some p =>
    simp only [append, show (l.alloc k).tail = some p from htail]
    exact prev_setNext _ p _

theorem holds_append (h : l.Holds is) (k : K) : (l.append k).2.Holds (is ++ [l.fresh]) := by
  obtain ⟨hfresh, hnodup, hallocated⟩ := allocated_snoc h.allocated h.nodup
  have htail : l.tail = is.getLast? := h.backward.start_eq.trans List.head?_reverse
  have hforward : Chain (l.append k).2.next (l.append k).2.head (is ++ [l.fresh]) none := by
    refine h.forward.snoc h.nodup hfresh (fun hnil => ?_) fun p hp => ?_
    · rw [hnil] at htail
      simp [append, alloc, show l.tail = none from htail, next]
    · rw [← next_alloc l k, ← next_setNext]
      simp only [append, show (l.alloc k).tail = some p from htail.trans hp]
      exact ⟨rfl, rfl⟩
  obtain ⟨hlast, hsize, hfr⟩ := append_fields l k
  have hbackward : Chain (l.append k).2.prev (l.append k).2.tail (is ++ [l.fresh]).reverse none := by
    rw [prev_append, List.reverse_append]
    refine ⟨hlast, ?_⟩
    rw [update_self]
    exact h.backward.update_of_notMem (by simpa using hfresh)
  refine ⟨hforward, hbackward, ?_, hnodup, hfr ▸ hallocated⟩
  rw [hsize, h.length]
  simp

theorem Ok.append (h : l.Ok) (k : K) : (l.append k).2.Ok := (holds_append h k).ok

theorem Ok.ids_append (h : l.Ok) (k : K) : (l.append k).2.ids = l.ids ++ [l.fresh] :=
  (holds_append h k).ids_eq

/-- An appended node is none of the old ones. -/
theorem Ok.fresh_not_mem (h : l.Ok) : l.fresh ∉ l.ids :=
  fun hmem => Nat.lt_irrefl _ (h.allocated _ hmem)

theorem Ok.key_append_old (h : l.Ok) (k : K) {i : Nat} (hi : i ∈ l.ids) :
    (l.append k).2.key i = l.key i := by
  have hne : i ≠ l.fresh := fun heq => h.fresh_not_mem (heq ▸ hi)
  rw [key_append, update_of_ne hne]

theorem key_append_new (l : Line K) (k : K) : (l.append k).2.key l.fresh = k := by
  rw [key_append, update_self]

/-! ### taking a node out -/

section Remove

variable {l : Line K} {xs ys : List Nat} {i : Nat}

/-- The node before `i` skips it. -/
theorem skipNext_forward (h : Chain l.next l.head (xs ++ i :: ys) none)
    (hprev : l.prev i = xs.getLast?) (hnodup : (xs ++ i :: ys).Nodup) :
    Chain (l.skipNext i).next (l.skipNext i).head (xs ++ ys) none := by
  cases List.eq_nil_or_concat xs with
  | inl hnil =>
    subst hnil
    have hskip : l.skipNext i = { l with head := l.next i } := by simp [skipNext, hprev]
    rw [hskip]
    exact h.after
  | inr hconcat =>
    obtain ⟨xs', p, rfl⟩ := hconcat
    rw [List.concat_eq_append] at *
    have hskip : l.skipNext i = l.setNext p (l.next i) := by simp [skipNext, hprev]
    have hchain : Chain l.next l.head (xs' ++ p :: i :: ys) none := by simpa using h
    have hskipped := hchain.bypass (by simpa using hnodup)
    rw [hskip, next_setNext, List.append_assoc]
    exact hskipped

/-- The node after `i` skips it. -/
theorem skipPrev_backward (h : Chain l.prev l.tail (ys.reverse ++ i :: xs.reverse) none)
    (hnext : l.next i = ys.head?) (hnodup : (ys.reverse ++ i :: xs.reverse).Nodup) :
    Chain (l.skipPrev i).prev (l.skipPrev i).tail (ys.reverse ++ xs.reverse) none := by
  cases ys with
  | nil =>
    have hskip : l.skipPrev i = { l with tail := l.prev i } := by simp [skipPrev, hnext]
    rw [hskip]
    exact h.after
  | cons n ys =>
    have hskip : l.skipPrev i = l.setPrev n (l.prev i) := by simp [skipPrev, hnext]
    have hchain : Chain l.prev l.tail (ys.reverse ++ n :: i :: xs.reverse) none := by
      simpa using h
    have hskipped := hchain.bypass (by simpa using hnodup)
    rw [hskip, prev_setPrev, List.reverse_cons, List.append_assoc]
    exact hskipped

@[simp] theorem prev_skipNext : (l.skipNext i).prev = l.prev := by
  unfold skipNext
  cases l.prev i with
  | none => rfl
  | some p => exact prev_setNext l p _

@[simp] theorem next_skipPrev : (l.skipPrev i).next = l.next := by
  unfold skipPrev
  cases l.next i with
  | none => rfl
  | some n => exact next_setPrev l n _

theorem skipNext_rest : (l.skipNext i).tail = l.tail ∧ (l.skipNext i).key = l.key ∧
    (l.skipNext i).size = l.size ∧ (l.skipNext i).fresh = l.fresh := by
  unfold skipNext
  cases l.prev i with
  | none => exact ⟨rfl, rfl, rfl, rfl⟩
  | some p => exact ⟨rfl, key_setNext l p _, rfl, rfl⟩

theorem skipPrev_rest : (l.skipPrev i).head = l.head ∧ (l.skipPrev i).key = l.key ∧
    (l.skipPrev i).size = l.size ∧ (l.skipPrev i).fresh = l.fresh := by
  unfold skipPrev
  cases l.next i with
  | none => exact ⟨rfl, rfl, rfl, rfl⟩
  | some n => exact ⟨rfl, key_setPrev l n _, rfl, rfl⟩

@[simp] theorem key_remove : (l.remove i).key = l.key := by
  show ((((l.skipNext i).skipPrev i).setPrev i none).setNext i none).key = l.key
  rw [key_setNext, key_setPrev, skipPrev_rest.2.1, skipNext_rest.2.1]

theorem Holds.links (h : l.Holds (xs ++ i :: ys)) :
    l.prev i = xs.getLast? ∧ l.next i = ys.head? := by
  have hback : Chain l.prev (l.prev i) xs.reverse none := by
    have := h.backward
    rw [List.reverse_append, List.reverse_cons, List.append_assoc] at this
    exact this.after
  constructor
  · rw [hback.start_eq, List.head?_reverse]
  · exact h.forward.after.start_eq

theorem holds_remove (h : l.Holds (xs ++ i :: ys)) : (l.remove i).Holds (xs ++ ys) := by
  obtain ⟨hprev, hnext⟩ := h.links
  have hi : i ∉ xs ∧ i ∉ ys := by
    have hnd := List.nodup_middle.mp h.nodup
    simpa using (List.nodup_cons.mp hnd).1
  have hnodup : (xs ++ ys).Nodup := (List.nodup_cons.mp (List.nodup_middle.mp h.nodup)).2
  have hreverse : (xs ++ i :: ys).reverse = ys.reverse ++ i :: xs.reverse := by simp
  have hkept : (l.skipNext i).next i = ys.head? := by
    rw [← hnext]
    unfold skipNext
    cases hp : l.prev i with
    | none => rfl
    | some p =>
      have hne : i ≠ p := by
        intro heq
        have hmem : p ∈ xs := List.mem_of_getLast? (hprev ▸ hp)
        exact hi.1 (heq ▸ hmem)
      rw [next_setNext, update_of_ne hne]
  have hforward := skipNext_forward h.forward hprev h.nodup
  have hbackward := skipPrev_backward
    (by rw [prev_skipNext, skipNext_rest.1, ← hreverse]; exact h.backward) hkept
    (by rw [← hreverse]; exact List.nodup_reverse.mpr h.nodup)
  refine ⟨?_, ?_, ?_, hnodup, ?_⟩
  · show Chain ((((l.skipNext i).skipPrev i).setPrev i none).setNext i none).next
      ((l.skipNext i).skipPrev i).head (xs ++ ys) none
    rw [next_setNext, next_setPrev, next_skipPrev, skipPrev_rest.1]
    exact hforward.update_of_notMem (by simp [hi])
  · show Chain ((((l.skipNext i).skipPrev i).setPrev i none).setNext i none).prev
      ((l.skipNext i).skipPrev i).tail (xs ++ ys).reverse none
    rw [prev_setNext, prev_setPrev, List.reverse_append]
    exact hbackward.update_of_notMem (by simp [hi])
  · show ((l.skipNext i).skipPrev i).size - 1 = (xs ++ ys).length
    rw [skipPrev_rest.2.2.1, skipNext_rest.2.2.1, h.length]
    simp only [List.length_append, List.length_cons]
    omega
  · intro j hj
    show j < ((l.skipNext i).skipPrev i).fresh
    rw [skipPrev_rest.2.2.2, skipNext_rest.2.2.2]
    apply h.allocated j
    cases List.mem_append.mp hj with
    | inl hj => exact List.mem_append_left _ hj
    | inr hj => exact List.mem_append_right _ (List.mem_cons_of_mem _ hj)

end Remove

/-- Taking a linked node out leaves the others in place. -/
theorem Ok.remove (h : l.Ok) {i : Nat} (hi : i ∈ l.ids) :
    (l.remove i).Ok ∧ (l.remove i).ids = l.ids.erase i := by
  obtain ⟨xs, ys, hids⟩ := List.append_of_mem hi
  have hholds : l.Holds (xs ++ i :: ys) := hids ▸ h
  have hxs : i ∉ xs := by
    have hnd := List.nodup_middle.mp hholds.nodup
    have := (List.nodup_cons.mp hnd).1
    simp at this
    exact this.1
  have hremoved := holds_remove hholds
  constructor
  · exact hremoved.ok
  · rw [hremoved.ids_eq, hids, List.erase_append_right _ hxs, List.erase_cons_head]

end Line

end BunServe

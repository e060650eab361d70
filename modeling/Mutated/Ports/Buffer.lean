import Mathlib.Data.PNat.Notation
import Mathlib.Data.PNat.Defs
import Mutated.Verified.Circular
import Mutated.Verified.Exec

/-!
# The circular buffer of `buffer.hh`

`buffer<T, BUFSZ>` keeps its items in an array `buf_` between two pointers
`head_` and `tail_`, with a separate count `used_` that tells an empty
buffer from a full one (in both `head_ == tail_`).  A pointer into `buf_` is
modelled by its offset, `nullptr` by `none`; the array is a function of the
offset, with arbitrary contents before anything is stored.

Every member function is a call that returns or throws.  Those that hand
pointers back also hand back the length they store through their reference
parameter.

The window of `used` cells from `head` on is the list the buffer stands for.
-/

namespace Mutated.Ports

/-! ## Exceptions -/

/-- A value of `errno`. -/
abbrev Errno := Int

def ENOSPC : Errno := 28
def EAGAIN : Errno := 11
def EIO : Errno := 5

/-- What a call of the program can throw.  `undefinedBehaviour` is not an
exception of the source: it marks a run that has left the language's defined
behaviour, after which nothing is known about it. -/
inductive Exn
  | invalidArgument (what : String)
  | systemError (code : Errno) (what : String)
  | runtimeError (what : String)
  | badFunctionCall
  | undefinedBehaviour (where_ : String)
  deriving DecidableEq, Repr

/-- The exceptions of a buffer: the call asked for nothing, or for more than
there is. -/
inductive BufferExn : Exn → Prop
  | nothing (what : String) : BufferExn (.invalidArgument what)
  | space (what : String) : BufferExn (.systemError ENOSPC what)

/-- It is an exception of the source. -/
def Exn.Defined (e : Exn) : Prop := ∀ where_, e ≠ .undefinedBehaviour where_

theorem BufferExn.defined {e : Exn} (h : BufferExn e) : e.Defined := by
  cases h with
  | nothing what => nofun
  | space what => nofun

open Mutated.Verified.Circular

/-- `buffer<T, BUFSZ>`: the array and the offsets of the two pointers. -/
structure Buffer (T : Type) (BUFSZ : ℕ+) where
  buf : Nat → T
  head : Nat
  tail : Nat
  used : Nat

namespace Buffer

variable {T : Type} {BUFSZ : ℕ+}

/-- The constructor: both pointers at the start of uninitialised storage. -/
def init (mem : Nat → T) : Buffer T BUFSZ :=
  { buf := mem, head := 0, tail := 0, used := 0 }

def bufcap (_ : Buffer T BUFSZ) : Nat := BUFSZ

def size (_ : Buffer T BUFSZ) : Nat := BUFSZ

def items (b : Buffer T BUFSZ) : Nat := b.used

def space (b : Buffer T BUFSZ) : Nat := BUFSZ - b.used

/-! ## Queueing -/

/-- The pair of pointers for a write of `len` items, and the number of items
that go through the first one. -/
def queuePrep (len : Nat) :
    EStateM Exn (Buffer T BUFSZ) (Nat × Option Nat × Nat) := fun b =>
  if len = 0 then
    .error (.invalidArgument "buffer::queue_prep: len = 0") b
  else if b.used = BUFSZ then
    .error (.systemError ENOSPC "buffer::queue_prep: buffer full") b
  else if b.space < len then
    .error (.systemError ENOSPC
      "buffer::queue_prep: not enough buffer space ") b
  else if b.head ≤ b.tail ∧ b.bufcap - b.tail ≤ len then
    .ok (b.tail, some 0, b.bufcap - b.tail) b
  else
    .ok (b.tail, none, len) b

def queueCommit (len : Nat) : EStateM Exn (Buffer T BUFSZ) Unit := fun b =>
  if len = 0 then
    .error (.invalidArgument "buffer::queue_commit: len = 0") b
  else if b.used = BUFSZ then
    .error (.systemError ENOSPC "buffer::queue_commit: buffer full") b
  else if b.space < len then
    .error (.systemError ENOSPC
      "buffer::queue_commit: not enough buffer space ") b
  else if b.head ≤ b.tail then
    if len < b.bufcap - b.tail then
      .ok () { b with tail := b.tail + len, used := b.used + len }
    else
      .ok () { b with
        tail := len - (b.bufcap - b.tail), used := b.used + len }
  else
    .ok () { b with tail := b.tail + len, used := b.used + len }

/-- One contiguous array at the end of the queue, already committed. -/
def queue (len : Nat) : EStateM Exn (Buffer T BUFSZ) (Nat × Nat) := do
  let b ← get
  let len := if b.space < len ∧ 0 < b.space then b.space else len
  let (p, _, len) ← queuePrep len
  queueCommit len
  return (p, len)

/-- As much as fits is queued. -/
theorem queue_eq (len : Nat) (b : Buffer T BUFSZ) : queue len b = (do
    let (p, _, len) ← queuePrep
      (if b.space < len ∧ 0 < b.space then b.space else len)
    queueCommit len
    return (p, len)) b := rfl

/-- Construct `x` in place at the end of the queue; the pointer to it. -/
def queueEmplace (x : T) : EStateM Exn (Buffer T BUFSZ) Nat := do
  let (p, _) ← queue 1
  modify fun b => { b with buf := blit b.buf p [x] }
  return p

/-! ## Reading and removing -/

/-- The pointer to the last item that was queued. -/
def last : EStateM Exn (Buffer T BUFSZ) Nat := fun b =>
  if b.used = 0 then
    .error (.systemError ENOSPC "buffer::last: buffer empty") b
  else if b.tail = 0 then
    .ok (BUFSZ - 1) b
  else
    .ok (b.tail - 1) b

/-- The pair of pointers to the first `len` items, and the number of items
the first one points to. -/
def peek (len : Nat) :
    EStateM Exn (Buffer T BUFSZ) (Nat × Option Nat × Nat) := fun b =>
  if len = 0 then
    .error (.invalidArgument "buffer::peek: len = 0") b
  else if b.used = 0 then
    .error (.systemError ENOSPC "buffer::peek: buffer empty") b
  else if b.items < len then
    .error (.systemError ENOSPC "buffer::peek: not enough items") b
  else if b.tail ≤ b.head ∧ b.bufcap - b.head < len then
    .ok (b.head, some 0, b.bufcap - b.head) b
  else
    .ok (b.head, none, len) b

def drop (len : Nat) : EStateM Exn (Buffer T BUFSZ) Unit := fun b =>
  if len = 0 then
    .ok () b
  else if b.used = 0 then
    .error (.systemError ENOSPC "buffer::drop: buffer empty") b
  else if b.items < len then
    .error (.systemError ENOSPC "buffer::drop: not enough items") b
  else if b.tail ≤ b.head ∧ b.bufcap - b.head ≤ len then
    .ok () { b with
      head := len - (b.bufcap - b.head), used := b.used - len }
  else
    .ok () { b with head := b.head + len, used := b.used - len }

def clear : EStateM Exn (Buffer T BUFSZ) Unit := do
  let b ← get
  drop b.items

/-- One contiguous array at the start of the queue, already dropped. -/
def dequeue (len : Nat) : EStateM Exn (Buffer T BUFSZ) (Nat × Nat) := do
  let b ← get
  let len := if b.used < len then b.used else len
  let (p, _, len) ← peek len
  drop len
  return (p, len)

/-- As much as is there is taken. -/
theorem dequeue_eq (len : Nat) (b : Buffer T BUFSZ) : dequeue len b = (do
    let (p, _, len) ← peek (if b.used < len then b.used else len)
    drop len
    return (p, len)) b := rfl

/-- The pointer to the first item, already dropped. -/
def dequeueOne : EStateM Exn (Buffer T BUFSZ) Nat := do
  let (p, _) ← dequeue 1
  return p

/-! ## Access through a pair of pointers -/

/-- Store `xs` through the pointers handed out by `queuePrep`: the first
`n1` items through `p1`, the others through `p2`. -/
def fill (p1 : Nat) (p2 : Option Nat) (n1 : Nat) (xs : List T)
    (b : Buffer T BUFSZ) : Buffer T BUFSZ :=
  match p2 with
  | none => { b with buf := blit b.buf p1 xs }
  | some p2 => { b with
      buf := blit (blit b.buf p1 (xs.take n1)) p2 (xs.drop n1) }

/-- The items behind the pointers handed out by `peek`: the first array, and
the second one when its pointer is not null. -/
def segments (p1 : Nat) (p2 : Option Nat) (n1 n2 : Nat)
    (b : Buffer T BUFSZ) : List T × Option (List T) :=
  (block b.buf p1 n1, p2.map fun p2 => block b.buf p2 n2)

/-- The two segments of a read, one after the other. -/
def joinSegs (segs : List T × Option (List T)) : List T :=
  segs.1 ++ segs.2.getD []

/-! ## Iteration -/

/-- `buffer_iterator<T>`: a position, and the pointers `span1_end_` and
`span2_start_`, which are both null or both set. -/
structure Iter where
  ptr : Nat
  span : Option (Nat × Nat)
  deriving DecidableEq, Repr

/-- `operator++`. -/
def Iter.next (it : Iter) : Iter :=
  match it.span with
  | none => { it with ptr := it.ptr + 1 }
  | some (span1End, span2Start) =>
      if it.ptr + 1 = span1End then { it with ptr := span2Start }
      else { it with ptr := it.ptr + 1 }

def begin (b : Buffer T BUFSZ) : Iter :=
  if b.used = 0 ∨ b.head < b.tail then ⟨b.head, none⟩
  else ⟨b.head, some (b.bufcap, 0)⟩

/-- The iterator `end()`. -/
def fin (b : Buffer T BUFSZ) : Iter :=
  if b.used = 0 ∨ b.head < b.tail then ⟨b.tail, none⟩
  else ⟨b.tail, some (b.bufcap, 0)⟩

/-- The positions a range-for visits going from `it` to `stop`, or `none`
when it takes more than `fuel` increments. -/
def walk (stop : Iter) : Nat → Iter → Option (List Nat)
  | 0, it => if it = stop then some [] else none
  | fuel + 1, it =>
      if it = stop then some []
      else (walk stop fuel it.next).map (it.ptr :: ·)

/-- The slots that `for (auto &x : b)` visits.  The walk never needs more
than `BUFSZ` increments (`walk_eq`). -/
def visited (b : Buffer T BUFSZ) : List Nat :=
  (walk b.fin BUFSZ b.begin).getD []

/-! ## The list a buffer stands for -/

/-- The pointers are inside the array and agree with the item count. -/
structure WF (b : Buffer T BUFSZ) : Prop where
  head_lt : b.head < BUFSZ
  used_le : b.used ≤ BUFSZ
  tail_eq : b.tail = (b.head + b.used) % BUFSZ

/-- The occupied slots, oldest item first. -/
def slots (b : Buffer T BUFSZ) : List Nat := cells BUFSZ b.head b.used

/-- The items, oldest first. -/
def toList (b : Buffer T BUFSZ) : List T :=
  window BUFSZ b.buf b.head b.used

@[simp] theorem length_toList (b : Buffer T BUFSZ) :
    b.toList.length = b.used := length_window ..

theorem toList_eq_nil {b : Buffer T BUFSZ} : b.toList = [] ↔ b.used = 0 := by
  rw [← length_toList, List.length_eq_zero_iff]

theorem map_slots (b : Buffer T BUFSZ) : b.slots.map b.buf = b.toList :=
  map_cells ..

theorem init_wf (mem : Nat → T) : (init mem : Buffer T BUFSZ).WF where
  head_lt := BUFSZ.pos
  used_le := Nat.zero_le _
  tail_eq := by simp [init]

@[simp] theorem init_toList (mem : Nat → T) :
    (init mem : Buffer T BUFSZ).toList = [] := rfl

/-- The two ways the occupied slots can lie in the array. -/
theorem WF.layout {b : Buffer T BUFSZ} (h : b.WF) :
    (b.head + b.used < BUFSZ ∧ b.tail = b.head + b.used) ∨
      (BUFSZ ≤ b.head + b.used ∧ b.tail + BUFSZ = b.head + b.used) := by
  have hhead := h.head_lt
  have hused := h.used_le
  rw [h.tail_eq]
  rcases wrap_cases (show b.head + b.used < 2 * (BUFSZ : Nat) by omega) with
    ⟨hlt, hmod⟩ | ⟨hge, hmod⟩
  · exact .inl ⟨hlt, hmod⟩
  · exact .inr ⟨hge, by omega⟩

theorem WF.tail_lt {b : Buffer T BUFSZ} (h : b.WF) : b.tail < BUFSZ := by
  rw [h.tail_eq]
  exact Nat.mod_lt _ BUFSZ.pos

end Buffer

end Mutated.Ports

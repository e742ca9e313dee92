import Mathlib.Data.List.Basic

/-!
# The thread-safe queue

`TSQueue<T>` (`ts_queue.hpp`) is a ring buffer of fixed capacity guarded by one pthread mutex
and two condition variables.  This file models its data: the five fields of the class, the
constructor, and the bodies of `enqueue` and `dequeue` past their wait loops, with the C `int`
arithmetic they perform.  Undefined behaviour (a signed overflow, `% 0`, an index outside
`new T[buffer_size]`, or a read of a slot never written) is `none`.

A whole call runs under the mutex, so `TSQueue.enqueue` and `TSQueue.dequeue` model it as one
atomic step that is not enabled (`none`) while its wait loop would block.  The individual pthread
steps of a call (lock, test, `pthread_cond_wait`, signal, spurious wake-up) are modelled in
`NthuOs.Queue.Threads` on top of the same bodies.

The FIFO view of the buffer is `TSQueue.window`: the slots `buffer[(head + i) % buffer_size]`
for `0 ≤ i < size`, in order.
-/

namespace NthuOs

/-! ### C `int` arithmetic -/

/-- `INT_MAX` of the 32-bit `int` of the sources, `2^31 - 1`. -/
def INT_MAX : Int := 2147483647

/-- `INT_MIN` of the 32-bit `int` of the sources, `-2^31`. -/
def INT_MIN : Int := -2147483648

/-- The value of an `int` expression: `none` when it overflows, which is undefined. -/
def cInt (x : Int) : Option Int := if INT_MIN ≤ x ∧ x ≤ INT_MAX then some x else none

/-- C's `a % b` on `int`: the remainder of truncating division, undefined when `b = 0` and for
`INT_MIN % -1`. -/
def cMod (a b : Int) : Option Int :=
  if b = 0 ∨ (a = INT_MIN ∧ b = -1) then none else some (a.tmod b)

/-- `buffer[i] = x` on the slots of an array: `none` outside the array. -/
def store {α : Type} (buffer : List (Option α)) (i : Int) (x : α) : Option (List (Option α)) :=
  if 0 ≤ i ∧ i < buffer.length then some (buffer.set i.toNat (some x)) else none

/-- `buffer[i]`: `none` outside the array and for a slot never written. -/
def load {α : Type} (buffer : List (Option α)) (i : Int) : Option α :=
  if 0 ≤ i then buffer[i.toNat]?.join else none

theorem cInt_eq_some {x : Int} (h₁ : INT_MIN ≤ x) (h₂ : x ≤ INT_MAX) : cInt x = some x := by
  simp [cInt, h₁, h₂]

theorem cMod_eq_some {a b : Int} (ha : 0 ≤ a) (hb : 0 < b) : cMod a b = some (a % b) := by
  have : ¬ (b = 0 ∨ (a = INT_MIN ∧ b = -1)) := by omega
  simp only [cMod, this, ↓reduceIte, Int.tmod_eq_emod ha (Int.le_of_lt hb)]

theorem store_eq_some {α : Type} (buffer : List (Option α)) {i : Int} (x : α) (h₁ : 0 ≤ i)
    (h₂ : i < buffer.length) : store buffer i x = some (buffer.set i.toNat (some x)) := by
  simp [store, h₁, h₂]

@[simp] theorem load_set_self {α : Type} {buffer : List (Option α)} {i : Int} {x : α}
    (h₁ : 0 ≤ i) (h₂ : i < buffer.length) : load (buffer.set i.toNat (some x)) i = some x := by
  simp [load, h₁, List.getElem?_set_self (show i.toNat < buffer.length by omega)]

theorem load_set_ne {α : Type} {buffer : List (Option α)} {i j : Int} {x : α} (h₁ : 0 ≤ i)
    (h : i ≠ j) : load (buffer.set i.toNat (some x)) j = load buffer j := by
  unfold load
  split
  · rw [List.getElem?_set_ne (by omega)]
  · rfl

/-! ### The queue -/

/-- The fields of `TSQueue<T>`; the mutex and the condition variables are not data here. -/
structure TSQueue (α : Type) where
  /-- `buffer_size`: the capacity fixed by the constructor. -/
  buffer_size : Int
  /-- `buffer`: the slots of `new T[buffer_size]`; `none` is a slot never written. -/
  buffer : List (Option α)
  /-- `size`: the number of items in the queue. -/
  size : Int
  /-- `head`: the index of the first item. -/
  head : Int
  /-- `tail`: the index of the last item, `-1` before the first `enqueue`. -/
  tail : Int
  deriving DecidableEq, Repr

namespace TSQueue

variable {α : Type}

/-- `TSQueue(int buffer_size)`; `new T[buffer_size]` throws for a negative length. -/
def create (buffer_size : Int) : Option (TSQueue α) :=
  if buffer_size < 0 then none
  else some ⟨buffer_size, List.replicate buffer_size.toNat none, 0, 0, -1⟩

/-- `get_size()`: an unlocked read of `size`. -/
def get_size (q : TSQueue α) : Int := q.size

/-- `get_max_buffersize()`. -/
def get_max_buffersize (q : TSQueue α) : Int := q.buffer_size

/-- The body of `enqueue(item)` past `while (size == buffer_size)`:
`tail = (tail + 1) % buffer_size; buffer[tail] = item; size++;`. -/
def enqueueBody (q : TSQueue α) (item : α) : Option (TSQueue α) := do
  let next ← cInt (q.tail + 1)
  let tail ← cMod next q.buffer_size
  let buffer ← store q.buffer tail item
  let size ← cInt (q.size + 1)
  pure { q with tail, buffer, size }

/-- The body of `dequeue()` past `while (size == 0)`:
`T val = buffer[head]; head = (head + 1) % buffer_size; size--; return val;`. -/
def dequeueBody (q : TSQueue α) : Option (α × TSQueue α) := do
  let val ← load q.buffer q.head
  let next ← cInt (q.head + 1)
  let head ← cMod next q.buffer_size
  let size ← cInt (q.size - 1)
  pure (val, { q with head, size })

/-- A whole `enqueue(item)` call under the mutex; not enabled while `size == buffer_size`. -/
def enqueue (q : TSQueue α) (item : α) : Option (TSQueue α) :=
  if q.size = q.buffer_size then none else q.enqueueBody item

/-- A whole `dequeue()` call under the mutex; not enabled while `size == 0`. -/
def dequeue (q : TSQueue α) : Option (α × TSQueue α) :=
  if q.size = 0 then none else q.dequeueBody

/-- The slot `buffer[(head + i) % buffer_size]`, `i` places after the head. -/
def slot (q : TSQueue α) (i : Nat) : Option α := load q.buffer ((q.head + i) % q.buffer_size)

/-- The FIFO view: the slots `i = 0, …, size - 1` after the head, oldest first. -/
def window (q : TSQueue α) : List (Option α) := (List.range q.size.toNat).map q.slot

@[simp] theorem length_window (q : TSQueue α) : q.window.length = q.size.toNat := by
  simp [window]

end TSQueue

end NthuOs

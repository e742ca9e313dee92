import NthuOs.Queue.Ring

/-!
# The ring buffer implements a bounded FIFO

`BoundedFifo` says what a `TSQueue` is for: at most `capacity` items, oldest first; `put` appends
and is blocked when the queue is full, `take` removes the oldest item and is blocked when it is
empty.  `TSQueue.Refines q f` relates a ring buffer to the FIFO it implements: the invariant of
`NthuOs.Queue.Ring` holds, the capacities agree and the window `buffer[(head + i) % buffer_size]`,
`i < size`, holds `f`'s items in order.

Whole calls simulate the FIFO's operations, blocking exactly when they do
(`TSQueue.refines_enqueue`, `TSQueue.refines_dequeue`), so a run of calls in any order simulates
the same run of the FIFO (`TSQueue.refines_exec`).  Since the calls of concurrent threads are
serialised by the mutex, every interleaving is such a run, and `TSQueue.exec_fifo` follows: the
window holds the items enqueued and not yet dequeued, in enqueue order, and the dequeued items
are a prefix of the enqueued ones.
-/

namespace NthuOs

section OptionRel

variable {α β γ δ : Type} {r : α → β → Prop} {s : γ → δ → Prop}

theorem rel_bind {a : Option α} {b : Option β} {f : α → Option γ} {g : β → Option δ}
    (h : Option.Rel r a b) (hfg : ∀ x y, r x y → Option.Rel s (f x) (g y)) :
    Option.Rel s (a.bind f) (b.bind g) := by
  cases h with
  | none => exact .none
  | some hxy => exact hfg _ _ hxy

theorem rel_map {a : Option α} {b : Option β} {f : α → γ} {g : β → δ}
    (h : Option.Rel r a b) (hfg : ∀ x y, r x y → s (f x) (g y)) :
    Option.Rel s (a.map f) (b.map g) := by
  cases h with
  | none => exact .none
  | some hxy => exact .some (hfg _ _ hxy)

theorem rel_some_left {x : α} {b : Option β} (h : Option.Rel r (some x) b) :
    ∃ y, b = some y ∧ r x y := by
  cases h with
  | some hxy => exact ⟨_, rfl, hxy⟩

end OptionRel

/-- A bounded FIFO queue: at most `capacity` items, oldest first. -/
structure BoundedFifo (α : Type) where
  capacity : Nat
  items : List α
  length_le : items.length ≤ capacity

/-- One call on a queue: `enqueue(item)` or `dequeue()`. -/
inductive Op (α : Type) where
  | enqueue (item : α)
  | dequeue
  deriving DecidableEq, Repr

namespace Op

variable {α : Type}

/-- The items a list of calls enqueues, in order. -/
def enqueued : List (Op α) → List α :=
  List.filterMap fun
    | .enqueue x => some x
    | .dequeue => none

@[simp] theorem enqueued_nil : enqueued ([] : List (Op α)) = [] := rfl
@[simp] theorem enqueued_enqueue (x : α) (ops : List (Op α)) :
    enqueued (.enqueue x :: ops) = x :: enqueued ops := rfl
@[simp] theorem enqueued_dequeue (ops : List (Op α)) :
    enqueued (.dequeue :: ops) = enqueued ops := rfl

end Op

namespace BoundedFifo

variable {α : Type}

/-- Append `x`; blocked when the queue holds `capacity` items. -/
def put (f : BoundedFifo α) (x : α) : Option (BoundedFifo α) :=
  if h : f.items.length < f.capacity then
    some ⟨f.capacity, f.items ++ [x], by rw [List.length_append]; exact h⟩
  else none

/-- Remove the oldest item; blocked when the queue is empty. -/
def take : BoundedFifo α → Option (α × BoundedFifo α)
  | ⟨c, x :: xs, h⟩ => some (x, ⟨c, xs, Nat.le_of_succ_le h⟩)
  | ⟨_, [], _⟩ => none

/-- Run a list of calls; `none` if one of them is blocked. -/
def exec (f : BoundedFifo α) : List (Op α) → Option (BoundedFifo α × List α)
  | [] => some (f, [])
  | .enqueue x :: ops => (f.put x).bind fun f' => f'.exec ops
  | .dequeue :: ops =>
    f.take.bind fun (y, f') => (f'.exec ops).map fun (f'', ys) => (f'', y :: ys)

/-- What a run of a FIFO does: the items taken, then those left, are the items it held, then
those put. -/
theorem exec_items {f f' : BoundedFifo α} {ops : List (Op α)} {ys : List α}
    (h : f.exec ops = some (f', ys)) : ys ++ f'.items = f.items ++ Op.enqueued ops := by
  induction ops generalizing f ys with
  | nil => cases h; simp
  | cons op ops ih =>
    cases op with
    | enqueue x =>
      simp only [exec, Option.bind_eq_some] at h
      obtain ⟨g, hg, h⟩ := h
      unfold put at hg
      split at hg
      · cases hg; simpa using ih h
      · cases hg
    | dequeue =>
      obtain ⟨c, _ | ⟨x, xs⟩, hl⟩ := f
      · cases h
      · simp only [exec, take, Option.some_bind, Option.map_eq_some'] at h
        obtain ⟨⟨g, zs⟩, hg, he⟩ := h
        cases he
        simpa using ih hg

end BoundedFifo

namespace TSQueue

variable {α : Type} {q q' : TSQueue α} {f : BoundedFifo α} {x : α}

/-- Run a list of whole calls on a queue; `none` if one of them is blocked. -/
def exec (q : TSQueue α) : List (Op α) → Option (TSQueue α × List α)
  | [] => some (q, [])
  | .enqueue x :: ops => (q.enqueue x).bind fun q' => q'.exec ops
  | .dequeue :: ops =>
    q.dequeue.bind fun (y, q') => (q'.exec ops).map fun (q'', ys) => (q'', y :: ys)

/-- The ring buffer `q` implements the FIFO `f`. -/
structure Refines (q : TSQueue α) (f : BoundedFifo α) : Prop where
  wellFormed : q.WellFormed
  capacity_eq : q.buffer_size = f.capacity
  window_eq : q.window = f.items.map some

theorem Refines.size_eq (h : q.Refines f) : q.size = f.items.length := by
  have := congrArg List.length h.window_eq
  rw [length_window, List.length_map] at this
  have := h.wellFormed.size_nonneg
  omega

theorem refines_enqueue (h : q.Refines f) :
    Option.Rel Refines (q.enqueue x) (f.put x) := by
  have hs := h.size_eq
  have hc := h.capacity_eq
  unfold BoundedFifo.put
  split
  · rename_i hlt
    rw [enqueue_eq_pushed h.wellFormed (by omega)]
    have hlt' : q.size < q.buffer_size := by omega
    exact .some ⟨wellFormed_pushed h.wellFormed hlt', hc,
      by rw [window_pushed h.wellFormed hlt', h.window_eq]; simp⟩
  · rw [enqueue, if_pos (by have := h.wellFormed.size_le; omega)]
    exact .none

theorem refines_dequeue (h : q.Refines f) :
    Option.Rel (fun a b => a.1 = b.1 ∧ a.2.Refines b.2) q.dequeue f.take := by
  obtain ⟨c, _ | ⟨y, ys⟩, hl⟩ := f
  · rw [dequeue, if_pos (by simpa using h.size_eq)]
    exact .none
  · have hs : q.size ≠ 0 := by have := h.size_eq; simp at this; omega
    obtain ⟨z, hz, he⟩ := dequeue_eq_popped h.wellFormed hs
    have hw := h.window_eq
    rw [window_popped h.wellFormed hs, hz, List.map_cons, List.cons.injEq] at hw
    rw [he]
    exact .some ⟨Option.some.inj hw.1, wellFormed_popped h.wellFormed hs, h.capacity_eq, hw.2⟩

/-- A run of whole calls on the ring buffer simulates the same run of the FIFO it implements:
both block at the same call, and otherwise return the same items. -/
theorem refines_exec (h : q.Refines f) (ops : List (Op α)) :
    Option.Rel (fun a b => a.2 = b.2 ∧ a.1.Refines b.1) (q.exec ops) (f.exec ops) := by
  induction ops generalizing q f with
  | nil => exact .some ⟨rfl, h⟩
  | cons op ops ih =>
    cases op with
    | enqueue x => exact rel_bind (refines_enqueue h) fun _ _ h' => ih h'
    | dequeue =>
      exact rel_bind (refines_dequeue h) fun ⟨_, _⟩ ⟨_, _⟩ ⟨hy, h'⟩ =>
        rel_map (ih h') fun ⟨_, _⟩ ⟨_, _⟩ ⟨hr, h''⟩ => ⟨by simp only at hy hr ⊢; rw [hy, hr], h''⟩

theorem refines_create {bs : Int} (hc : create bs = some q) (hpos : 0 < bs)
    (hle : bs ≤ INT_MAX) : q.Refines ⟨bs.toNat, [], Nat.zero_le _⟩ := by
  obtain ⟨-, rfl⟩ := create_some hc
  exact ⟨wellFormed_create hc hpos hle, by simp; omega, by simp [window]⟩

/-- **The ring buffer is a FIFO.**  Whatever the capacity `0 < bs ≤ INT_MAX` and whatever calls
the threads make, in the order the mutex serialises them: after every run, the slots
`buffer[(head + i) % buffer_size]`, `i < size`, hold exactly the items enqueued and not yet
dequeued, in enqueue order, and the items dequeued are a prefix of the items enqueued. -/
theorem exec_fifo {bs : Int} {ops : List (Op α)} {outs : List α} (hc : create bs = some q)
    (hpos : 0 < bs) (hle : bs ≤ INT_MAX) (h : q.exec ops = some (q', outs)) :
    q'.window = ((Op.enqueued ops).drop outs.length).map some ∧ outs <+: Op.enqueued ops := by
  have hr := refines_exec (refines_create hc hpos hle) ops
  rw [h] at hr
  obtain ⟨⟨f', ys⟩, hf, ⟨rfl, hq'⟩⟩ := rel_some_left hr
  have hi := BoundedFifo.exec_items hf
  simp only [List.nil_append] at hi
  refine ⟨?_, ⟨f'.items, hi⟩⟩
  rw [hq'.window_eq, ← hi, List.drop_left]

/-! ### The items of a queue -/

/-- The items in the queue, oldest first: the written slots of the window. -/
def contents (q : TSQueue α) : List α := q.window.filterMap id

theorem map_some_filterMap_id {l : List (Option α)} (h : ∀ o ∈ l, o.isSome) :
    (l.filterMap id).map some = l := by
  induction l with
  | nil => rfl
  | cons o l ih =>
    obtain ⟨y, rfl⟩ := Option.isSome_iff_exists.1 (h o (List.mem_cons_self _ _))
    simp [ih fun o ho => h o (List.mem_cons_of_mem _ ho)]

theorem window_eq_contents (hq : q.WellFormed) : q.window = q.contents.map some :=
  (map_some_filterMap_id hq.window_written).symm

theorem size_eq_length_contents (hq : q.WellFormed) : q.size = q.contents.length := by
  have := congrArg List.length (window_eq_contents hq)
  rw [length_window, List.length_map] at this
  have := hq.size_nonneg
  omega

theorem enqueue_contents (hq : q.WellFormed) (h : q.enqueue x = some q') :
    q'.WellFormed ∧ q'.buffer_size = q.buffer_size ∧ q'.contents = q.contents ++ [x] := by
  obtain ⟨hs, rfl⟩ := enqueue_some hq h
  refine ⟨wellFormed_pushed hq hs, rfl, ?_⟩
  simp [contents, window_pushed hq hs]

theorem dequeue_contents {y : α} (hq : q.WellFormed) (h : q.dequeue = some (y, q')) :
    q'.WellFormed ∧ q'.buffer_size = q.buffer_size ∧ q.contents = y :: q'.contents := by
  obtain ⟨hs, hy, rfl⟩ := dequeue_some hq h
  refine ⟨wellFormed_popped hq hs, rfl, ?_⟩
  simp [contents, window_popped hq hs, hy]

theorem exec_fifo_two_calls :
    (⟨2, [some 7, some 8], 1, 1, 1⟩ : TSQueue Nat).window =
        ((Op.enqueued [.enqueue 7, .enqueue 8, .dequeue]).drop [7].length).map some ∧
      [7] <+: Op.enqueued [.enqueue 7, .enqueue 8, .dequeue] :=
  exec_fifo (show TSQueue.create 2 = some ⟨2, [none, none], 0, 0, -1⟩ from rfl) (by decide)
    (by decide) rfl

end TSQueue

end NthuOs

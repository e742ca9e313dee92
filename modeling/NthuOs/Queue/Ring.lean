import NthuOs.Queue.Basic
import Mathlib.Algebra.Order.Group.Unbundled.Int

/-!
# The ring-buffer invariant

For a capacity `0 < buffer_size ≤ INT_MAX`, every state a `TSQueue` reaches from its constructor
by whole `enqueue`/`dequeue` calls satisfies `TSQueue.WellFormed`:

  `0 ≤ size ≤ buffer_size`, `0 ≤ head < buffer_size`, `-1 ≤ tail < buffer_size`,
  `(tail + 1) % buffer_size = (head + size) % buffer_size`,

the array has `buffer_size` slots and every slot of the window has been written.  From it, a call
past its wait loop never meets undefined behaviour: no `int` update overflows, the index is in
the array, and `dequeue` reads a written slot (`TSQueue.reachable_int_safe`).  For
`buffer_size = 0` the constructor's state is the only one: both wait loops block forever.

`TSQueue.pushed` and `TSQueue.popped` are the states the two bodies produce; the spec lemmas
`enqueue_eq_pushed` and `dequeue_eq_popped` say so, and every later file uses them instead of
unfolding the bodies.
-/

namespace NthuOs

namespace TSQueue

variable {α : Type} {q q' : TSQueue α} {x : α}

/-- The invariant of a queue built with a capacity in `(0, INT_MAX]`. -/
structure WellFormed (q : TSQueue α) : Prop where
  capacity_pos : 0 < q.buffer_size
  capacity_le : q.buffer_size ≤ INT_MAX
  length_buffer : (q.buffer.length : Int) = q.buffer_size
  size_nonneg : 0 ≤ q.size
  size_le : q.size ≤ q.buffer_size
  head_nonneg : 0 ≤ q.head
  head_lt : q.head < q.buffer_size
  tail_ge : -1 ≤ q.tail
  tail_lt : q.tail < q.buffer_size
  tail_succ : (q.tail + 1) % q.buffer_size = (q.head + q.size) % q.buffer_size
  window_written : ∀ o ∈ q.window, o.isSome

/-- The state `enqueueBody` produces when nothing in it is undefined. -/
def pushed (q : TSQueue α) (x : α) : TSQueue α :=
  { q with
    tail := (q.tail + 1) % q.buffer_size
    buffer := q.buffer.set ((q.tail + 1) % q.buffer_size).toNat (some x)
    size := q.size + 1 }

/-- The state `dequeueBody` produces when nothing in it is undefined. -/
def popped (q : TSQueue α) : TSQueue α :=
  { q with head := (q.head + 1) % q.buffer_size, size := q.size - 1 }

@[simp] theorem pushed_buffer_size : (q.pushed x).buffer_size = q.buffer_size := rfl
@[simp] theorem pushed_size : (q.pushed x).size = q.size + 1 := rfl
@[simp] theorem pushed_head : (q.pushed x).head = q.head := rfl
@[simp] theorem pushed_tail : (q.pushed x).tail = (q.tail + 1) % q.buffer_size := rfl
@[simp] theorem popped_buffer_size : q.popped.buffer_size = q.buffer_size := rfl
@[simp] theorem popped_size : q.popped.size = q.size - 1 := rfl
@[simp] theorem popped_head : q.popped.head = (q.head + 1) % q.buffer_size := rfl
@[simp] theorem popped_tail : q.popped.tail = q.tail := rfl
@[simp] theorem popped_buffer : q.popped.buffer = q.buffer := rfl

/-! ### Index arithmetic -/

/-- Two places of the window less than one turn apart are different slots. -/
theorem emod_add_ne {a i j n : Int} (hi : 0 ≤ i) (hij : i < j) (hj : j < n) :
    (a + i) % n ≠ (a + j) % n := by
  intro h
  have h0 : (j - i) % n = 0 := by
    rw [show j - i = (a + j) - (a + i) by omega, Int.sub_emod, h, Int.sub_self, Int.zero_emod]
  rw [Int.emod_eq_of_lt (by omega) (by omega)] at h0
  omega

theorem emod_succ_add (a i n : Int) : ((a + 1) % n + i) % n = (a + (i + 1)) % n := by
  rw [Int.emod_add_emod]; congr 1; omega

theorem emod_bounds {a n : Int} (hn : 0 < n) : 0 ≤ a % n ∧ a % n < n :=
  ⟨Int.emod_nonneg a (by omega), Int.emod_lt_of_pos a hn⟩

/-! ### The window after each body -/

theorem size_lt_of_ne (hq : q.WellFormed) (hs : q.size ≠ q.buffer_size) :
    q.size < q.buffer_size := lt_of_le_of_ne hq.size_le hs

theorem window_pushed (hq : q.WellFormed) (hs : q.size < q.buffer_size) :
    (q.pushed x).window = q.window ++ [some x] := by
  have hbs := emod_bounds (a := q.tail + 1) hq.capacity_pos
  have hlen := hq.length_buffer
  have hn : (q.size + 1).toNat = q.size.toNat + 1 := by have := hq.size_nonneg; omega
  simp only [window, pushed_size, hn, List.range_succ, List.map_append, List.map_singleton]
  congr 1
  · refine List.map_congr_left fun i hi => ?_
    have hi' : (i : Int) < q.size := by rw [List.mem_range] at hi; omega
    simp only [slot, pushed]
    rw [hq.tail_succ]
    exact load_set_ne (hq.tail_succ ▸ hbs.1) (emod_add_ne (by omega) hi' hs).symm
  · simp only [slot, pushed, Int.toNat_of_nonneg hq.size_nonneg]
    rw [← hq.tail_succ, load_set_self hbs.1 (by omega)]

theorem window_popped (hq : q.WellFormed) (hs : q.size ≠ 0) :
    q.window = q.slot 0 :: q.popped.window := by
  have hn : q.size.toNat = (q.size - 1).toNat + 1 := by have := hq.size_nonneg; omega
  simp only [window, popped_size, hn, List.range_succ_eq_map, List.map_cons, List.map_map]
  congr 1
  refine List.map_congr_left fun i _ => ?_
  simp only [Function.comp, slot, popped, Nat.succ_eq_add_one, emod_succ_add]
  push_cast; rfl

/-! ### The invariant is inductive -/

theorem wellFormed_pushed (hq : q.WellFormed) (hs : q.size < q.buffer_size) :
    (q.pushed x).WellFormed where
  capacity_pos := hq.capacity_pos
  capacity_le := hq.capacity_le
  length_buffer := by simp [pushed, hq.length_buffer]
  size_nonneg := by simp only [pushed_size]; have := hq.size_nonneg; omega
  size_le := by simp only [pushed_size, pushed_buffer_size]; omega
  head_nonneg := hq.head_nonneg
  head_lt := hq.head_lt
  tail_ge := by
    simp only [pushed_tail]; have := (emod_bounds (a := q.tail + 1) hq.capacity_pos).1; omega
  tail_lt := (emod_bounds hq.capacity_pos).2
  tail_succ := by
    simp only [pushed_tail, pushed_buffer_size, pushed_head, pushed_size, Int.emod_add_emod]
    rw [← Int.add_assoc, ← Int.emod_add_emod (q.head + q.size), ← hq.tail_succ,
      Int.emod_add_emod]
  window_written := by
    rw [window_pushed hq hs]
    simp only [List.mem_append, List.mem_singleton]
    rintro o (h | rfl)
    exacts [hq.window_written o h, rfl]

theorem wellFormed_popped (hq : q.WellFormed) (hs : q.size ≠ 0) : q.popped.WellFormed where
  capacity_pos := hq.capacity_pos
  capacity_le := hq.capacity_le
  length_buffer := hq.length_buffer
  size_nonneg := by simp only [popped_size]; have := hq.size_nonneg; omega
  size_le := by simp only [popped_size, popped_buffer_size]; have := hq.size_le; omega
  head_nonneg := (emod_bounds hq.capacity_pos).1
  head_lt := (emod_bounds hq.capacity_pos).2
  tail_ge := hq.tail_ge
  tail_lt := hq.tail_lt
  tail_succ := by
    simp only [popped_tail, popped_buffer_size, popped_head, popped_size, Int.emod_add_emod,
      hq.tail_succ]
    congr 1; omega
  window_written := fun o ho => hq.window_written o (by rw [window_popped hq hs]; simp [ho])

/-! ### Spec lemmas of the two bodies -/

theorem enqueueBody_eq (hq : q.WellFormed) (hs : q.size < q.buffer_size) :
    q.enqueueBody x = some (q.pushed x) := by
  have := hq.capacity_le; have := hq.tail_ge; have := hq.tail_lt; have := hq.size_nonneg
  have hbs := emod_bounds (a := q.tail + 1) hq.capacity_pos
  have hlen := hq.length_buffer
  rw [INT_MAX] at *
  simp only [enqueueBody, cInt_eq_some (x := q.tail + 1) (by rw [INT_MIN]; omega)
      (by rw [INT_MAX]; omega), Option.pure_def, Option.bind_eq_bind, Option.some_bind,
    cMod_eq_some (by omega : 0 ≤ q.tail + 1) hq.capacity_pos,
    store_eq_some q.buffer x hbs.1 (by omega),
    cInt_eq_some (x := q.size + 1) (by rw [INT_MIN]; omega) (by rw [INT_MAX]; omega)]
  rfl

theorem slot_zero (hq : q.WellFormed) : q.slot 0 = load q.buffer q.head := by
  simp [slot, Int.emod_eq_of_lt hq.head_nonneg hq.head_lt]

theorem dequeueBody_eq (hq : q.WellFormed) (hs : q.size ≠ 0) :
    ∃ x, q.slot 0 = some x ∧ q.dequeueBody = some (x, q.popped) := by
  have := hq.capacity_le; have := hq.head_nonneg; have := hq.head_lt; have := hq.size_le
  have := hq.size_nonneg
  have hw : (q.slot 0).isSome := hq.window_written _ (by rw [window_popped hq hs]; simp)
  obtain ⟨x, hx⟩ := Option.isSome_iff_exists.1 hw
  refine ⟨x, hx, ?_⟩
  rw [INT_MAX] at *
  rw [slot_zero hq] at hx
  simp only [dequeueBody, hx, cInt_eq_some (x := q.head + 1) (by rw [INT_MIN]; omega)
      (by rw [INT_MAX]; omega), Option.pure_def, Option.bind_eq_bind, Option.some_bind,
    cMod_eq_some (by omega : 0 ≤ q.head + 1) hq.capacity_pos,
    cInt_eq_some (x := q.size - 1) (by rw [INT_MIN]; omega) (by rw [INT_MAX]; omega)]
  rfl

theorem cInt_some {a b : Int} (h : cInt a = some b) : b = a := by
  unfold cInt at h
  split at h
  · exact (Option.some.inj h).symm
  · cases h

/-- Without any invariant: a body that is defined moves `size` by one and keeps the capacity. -/
theorem enqueueBody_some (h : q.enqueueBody x = some q') :
    q'.buffer_size = q.buffer_size ∧ q'.size = q.size + 1 := by
  simp only [enqueueBody, Option.pure_def, Option.bind_eq_bind, Option.bind_eq_some,
    Option.some.injEq] at h
  obtain ⟨_, _, _, _, _, _, n, hn, rfl⟩ := h
  exact ⟨rfl, cInt_some hn⟩

theorem dequeueBody_some {y : α} (h : q.dequeueBody = some (y, q')) :
    q'.buffer_size = q.buffer_size ∧ q'.size = q.size - 1 := by
  simp only [dequeueBody, Option.pure_def, Option.bind_eq_bind, Option.bind_eq_some,
    Option.some.injEq, Prod.mk.injEq] at h
  obtain ⟨_, _, _, _, _, _, n, hn, -, rfl⟩ := h
  exact ⟨rfl, cInt_some hn⟩

theorem enqueue_eq_pushed (hq : q.WellFormed) (hs : q.size ≠ q.buffer_size) :
    q.enqueue x = some (q.pushed x) := by
  rw [enqueue, if_neg hs, enqueueBody_eq hq (size_lt_of_ne hq hs)]

theorem dequeue_eq_popped (hq : q.WellFormed) (hs : q.size ≠ 0) :
    ∃ x, q.slot 0 = some x ∧ q.dequeue = some (x, q.popped) := by
  simpa only [dequeue, if_neg hs] using dequeueBody_eq hq hs

theorem enqueue_some (hq : q.WellFormed) (h : q.enqueue x = some q') :
    q.size < q.buffer_size ∧ q' = q.pushed x := by
  have hs : q.size ≠ q.buffer_size := by rintro hs; simp [enqueue, hs] at h
  exact ⟨size_lt_of_ne hq hs, (Option.some.inj ((enqueue_eq_pushed hq hs).symm.trans h)).symm⟩

theorem dequeue_some {y : α} (hq : q.WellFormed) (h : q.dequeue = some (y, q')) :
    q.size ≠ 0 ∧ q.slot 0 = some y ∧ q' = q.popped := by
  have hs : q.size ≠ 0 := by rintro hs; simp [dequeue, hs] at h
  obtain ⟨z, hz, he⟩ := dequeue_eq_popped hq hs
  rw [he, Option.some.injEq, Prod.mk.injEq] at h
  obtain ⟨rfl, rfl⟩ := h
  exact ⟨hs, hz, rfl⟩

/-! ### Reachable states -/

/-- The states of a queue built by `TSQueue(bs)` after whole calls in any order, each call's
critical section entered once its wait loop has exited. -/
inductive Reachable (bs : Int) : TSQueue α → Prop
  | create {q : TSQueue α} : create bs = some q → Reachable bs q
  | enqueue {q q' : TSQueue α} {x : α} : Reachable bs q → q.enqueue x = some q' → Reachable bs q'
  | dequeue {q q' : TSQueue α} {x : α} :
      Reachable bs q → q.dequeue = some (x, q') → Reachable bs q'

theorem create_some {bs : Int} (h : create bs = some q) :
    0 ≤ bs ∧ q = ⟨bs, List.replicate bs.toNat none, 0, 0, -1⟩ := by
  unfold create at h
  split at h
  · cases h
  · exact ⟨by omega, (Option.some.inj h).symm⟩

theorem wellFormed_create {bs : Int} (h : create bs = some q) (hpos : 0 < bs)
    (hle : bs ≤ INT_MAX) : q.WellFormed := by
  obtain ⟨-, rfl⟩ := create_some h
  exact
    { capacity_pos := hpos
      capacity_le := hle
      length_buffer := by simp; omega
      size_nonneg := le_refl _
      size_le := hpos.le
      head_nonneg := le_refl _
      head_lt := hpos
      tail_ge := le_refl _
      tail_lt := by show (-1 : Int) < bs; omega
      tail_succ := rfl
      window_written := by simp [window] }

theorem Reachable.wellFormed {bs : Int} (h : Reachable bs q) (hpos : 0 < bs)
    (hle : bs ≤ INT_MAX) : q.WellFormed ∧ q.buffer_size = bs := by
  induction h with
  | create hc => exact ⟨wellFormed_create hc hpos hle, by rw [(create_some hc).2]⟩
  | enqueue _ he ih =>
    obtain ⟨hs, rfl⟩ := enqueue_some ih.1 he
    exact ⟨wellFormed_pushed ih.1 hs, ih.2⟩
  | dequeue _ he ih =>
    obtain ⟨hs, -, rfl⟩ := dequeue_some ih.1 he
    exact ⟨wellFormed_popped ih.1 hs, ih.2⟩

theorem Reachable.blocked_of_zero (h : Reachable 0 q) : q.size = 0 ∧ q.buffer_size = 0 := by
  induction h with
  | create hc => rw [(create_some hc).2]; exact ⟨rfl, rfl⟩
  | enqueue _ he ih => rw [TSQueue.enqueue, if_pos (ih.1.trans ih.2.symm)] at he; cases he
  | dequeue _ he ih => rw [TSQueue.dequeue, if_pos ih.1] at he; cases he

/-- **The ring buffer never meets undefined behaviour.**  For `0 < buffer_size ≤ INT_MAX`, every
reachable state is `WellFormed` (which bounds `size`, `head` and `tail` and relates `tail` to
`head + size`), and the body of a call past its wait loop is defined: no `int` update overflows,
`buffer[tail]` and `buffer[head]` are in the array, and `dequeue` reads a written slot.  For
`buffer_size = 0`, both wait loops block in every reachable state. -/
theorem reachable_int_safe {bs : Int} (h : Reachable bs q) :
    (0 < bs → bs ≤ INT_MAX →
      q.WellFormed ∧ q.buffer_size = bs ∧
        (q.size ≠ q.buffer_size → ∀ x, (q.enqueueBody x).isSome) ∧
        (q.size ≠ 0 → q.dequeueBody.isSome)) ∧
    (bs = 0 → q.size = q.buffer_size ∧ q.size = 0) := by
  refine ⟨fun hpos hle => ?_, fun h0 => ?_⟩
  · obtain ⟨hq, hb⟩ := h.wellFormed hpos hle
    refine ⟨hq, hb, fun hs x => ?_, fun hs => ?_⟩
    · rw [enqueueBody_eq hq (size_lt_of_ne hq hs)]; rfl
    · obtain ⟨_, _, he⟩ := dequeueBody_eq hq hs; rw [he]; rfl
  · subst h0
    obtain ⟨h1, h2⟩ := h.blocked_of_zero
    exact ⟨h1.trans h2.symm, h1⟩

theorem reachable_int_safe_after_enqueue :
    (0 < (2 : Int) → (2 : Int) ≤ INT_MAX →
      (⟨2, [some 7, none], 1, 0, 0⟩ : TSQueue Nat).WellFormed ∧ (2 : Int) = 2 ∧
        ((1 : Int) ≠ 2 → ∀ x, ((⟨2, [some 7, none], 1, 0, 0⟩ : TSQueue Nat).enqueueBody x).isSome) ∧
        ((1 : Int) ≠ 0 → (⟨2, [some 7, none], 1, 0, 0⟩ : TSQueue Nat).dequeueBody.isSome)) ∧
    ((2 : Int) = 0 → (1 : Int) = 2 ∧ (1 : Int) = 0) :=
  reachable_int_safe (Reachable.enqueue (x := 7) (Reachable.create rfl) rfl)

end TSQueue

end NthuOs

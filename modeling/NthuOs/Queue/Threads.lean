import NthuOs.Queue.Fifo

/-!
# Threads calling the queue: no lost wake-up

Here the pthread steps of `TSQueue::enqueue` and `TSQueue::dequeue` interleave.  A call takes the
mutex (`pthread_mutex_lock`), tests its `while` condition and either waits
(`pthread_cond_wait` releases the mutex and blocks) or runs its body, signals the other condition
variable and unlocks.  A waiting thread is woken by a signal or spuriously; it then retakes the
mutex inside `pthread_cond_wait` and tests again.  Each mutex hold is one step, from the test to
the wait or to the unlock: no other thread can observe a state inside it.  The threads are a list
of any length; each is idle or inside one call, and may start a new call whenever it is idle.

`pthread_cond_signal` wakes one waiter of its condition variable, chosen by the scheduler, when
there is one; further wake-ups are spurious ones.

`World.reachable_no_lost_wakeup` is the invariant: whenever a thread waits on `cond_dequeue`,
the items in the queue are at most the dequeuers already woken and not yet retested, and whenever
one waits on `cond_enqueue`, the free slots are at most the enqueuers already woken and not yet
retested.  No thread is left waiting while an item or a slot is there that no woken thread will
claim.  `World.reachable_queue` connects the model to `NthuOs.Queue.Ring`: the queue of every
reachable world is a reachable queue, so the ring-buffer invariant and the FIFO refinement hold
for it.
-/

namespace NthuOs

/-- Where a thread is inside one call. -/
inductive CallPc where
  /-- Before `pthread_mutex_lock(&mutex)`. -/
  | lock
  /-- Holding the mutex at the `while` test; `woken` after a return from `pthread_cond_wait`. -/
  | test (woken : Bool)
  /-- Blocked in `pthread_cond_wait`, the mutex released. -/
  | wait
  /-- Woken in `pthread_cond_wait` and retaking the mutex. -/
  | relock
  deriving DecidableEq, Repr

/-- A thread inside a call: the call and where it is in it. -/
structure Caller (α : Type) where
  call : Op α
  pc : CallPc
  deriving DecidableEq, Repr

namespace Op

variable {α : Type}

/-- The condition variable the call waits on: `cond_enqueue` (`true`) or `cond_dequeue`
(`false`).  A call signals the other one. -/
def side : Op α → Bool
  | .enqueue _ => true
  | .dequeue => false

/-- The `while` test: `size == buffer_size` for `enqueue`, `size == 0` for `dequeue`. -/
def mustWait (q : TSQueue α) : Op α → Bool
  | .enqueue _ => decide (q.size = q.buffer_size)
  | .dequeue => decide (q.size = 0)

/-- The body past the wait loop; the value `dequeue` returns is not kept. -/
def body (q : TSQueue α) : Op α → Option (TSQueue α)
  | .enqueue x => q.enqueueBody x
  | .dequeue => q.dequeueBody.map Prod.snd

end Op

/-- The queue and the threads around it. -/
structure World (α : Type) where
  queue : TSQueue α
  /-- The thread holding `mutex`, if any. -/
  mutex : Option Nat
  /-- Each thread: idle (`none`) or inside a call. -/
  threads : List (Option (Caller α))

/-- One step of the scheduler. -/
inductive Action (α : Type) where
  /-- Idle thread `t` calls `enqueue(item)` or `dequeue()`. -/
  | call (t : Nat) (op : Op α)
  /-- Thread `t` takes the free mutex, in `pthread_mutex_lock` or inside `pthread_cond_wait`. -/
  | lock (t : Nat)
  /-- The mutex holder `t` tests its `while` condition; if it runs its body, its signal wakes
  thread `v` when some thread waits on that condition variable. -/
  | test (t v : Nat)
  /-- A spurious wake-up of thread `t`. -/
  | spurious (t : Nat)

variable {α : Type}

/-- Thread `c` is blocked in `pthread_cond_wait` on the condition variable of side `s`. -/
def waitsOn (s : Bool) : Option (Caller α) → Bool
  | some ⟨op, .wait⟩ => op.side == s
  | _ => false

/-- Thread `c`, in a call of side `s`, was woken and has not yet redone its `while` test. -/
def wokenOn (s : Bool) : Option (Caller α) → Bool
  | some ⟨op, .relock⟩ => op.side == s
  | some ⟨op, .test true⟩ => op.side == s
  | _ => false

/-- `pthread_cond_signal` on the condition variable of side `s`: when some thread waits on it,
the scheduler's choice `v` must be one of them, and it is woken. -/
def signal (s : Bool) (v : Nat) (ts : List (Option (Caller α))) :
    Option (List (Option (Caller α))) :=
  if ts.any (waitsOn s) then
    match ts[v]? with
    | some (some c) =>
      if waitsOn s (some c) then some (ts.set v (some { c with pc := .relock })) else none
    | _ => none
  else some ts

namespace World

/-- The world after one scheduler step; `none` when the step is not enabled. -/
def step (w : World α) : Action α → Option (World α)
  | .call t op =>
    match w.threads[t]? with
    | some none => some { w with threads := w.threads.set t (some ⟨op, .lock⟩) }
    | _ => none
  | .lock t =>
    match w.mutex, w.threads[t]? with
    | none, some (some ⟨op, .lock⟩) =>
      some ⟨w.queue, some t, w.threads.set t (some ⟨op, .test false⟩)⟩
    | none, some (some ⟨op, .relock⟩) =>
      some ⟨w.queue, some t, w.threads.set t (some ⟨op, .test true⟩)⟩
    | _, _ => none
  | .test t v =>
    match w.threads[t]? with
    | some (some ⟨op, .test _⟩) =>
      if w.mutex = some t then
        if op.mustWait w.queue then
          some ⟨w.queue, none, w.threads.set t (some ⟨op, .wait⟩)⟩
        else
          (op.body w.queue).bind fun q =>
            (signal (!op.side) v (w.threads.set t none)).map fun ts => ⟨q, none, ts⟩
      else none
    | _ => none
  | .spurious t =>
    match w.threads[t]? with
    | some (some ⟨op, .wait⟩) => some { w with threads := w.threads.set t (some ⟨op, .relock⟩) }
    | _ => none

/-- The worlds reachable from a queue built by `TSQueue(bs)` and `n` idle threads. -/
inductive Reachable (bs : Int) (n : Nat) : World α → Prop
  | init {q : TSQueue α} :
      TSQueue.create bs = some q → Reachable bs n ⟨q, none, List.replicate n none⟩
  | step {w w' : World α} {a : Action α} :
      Reachable bs n w → w.step a = some w' → Reachable bs n w'

/-- The threads blocked on the condition variable of side `s`. -/
def waiting (s : Bool) (w : World α) : Nat := w.threads.countP (waitsOn s)

/-- The threads of side `s` woken and not yet retested. -/
def woken (s : Bool) (w : World α) : Nat := w.threads.countP (wokenOn s)

/-- What side `s` can claim in `q`: the free slots (`s = true`) or the items (`s = false`). -/
def available (s : Bool) (q : TSQueue α) : Int := if s then q.buffer_size - q.size else q.size

/-- No lost wake-up: while some thread waits on side `s`, the threads woken on that side and not
yet retested are at least what side `s` can claim. -/
def NoLostWakeup (w : World α) : Prop :=
  ∀ s, 0 < waiting s w → available s w.queue ≤ woken s w

/-! ### What one step can do -/

/-- The moves of one thread that leave the queue alone and make no thread wait. -/
inductive LocalMove : Option (Caller α) → Option (Caller α) → Prop
  | call (op : Op α) : LocalMove none (some ⟨op, .lock⟩)
  | lock (op : Op α) : LocalMove (some ⟨op, .lock⟩) (some ⟨op, .test false⟩)
  | relock (op : Op α) : LocalMove (some ⟨op, .relock⟩) (some ⟨op, .test true⟩)
  | wake (op : Op α) : LocalMove (some ⟨op, .wait⟩) (some ⟨op, .relock⟩)

variable {w w' : World α} {a : Action α}

/-- Every step is a local move of one thread, a failed `while` test that waits, or a passed test
that runs the body and signals. -/
theorem step_cases (h : w.step a = some w') :
    (∃ t c c', w.threads[t]? = some c ∧ LocalMove c c' ∧ w'.queue = w.queue ∧
      w'.threads = w.threads.set t c') ∨
    (∃ t op b, w.threads[t]? = some (some ⟨op, .test b⟩) ∧ op.mustWait w.queue = true ∧
      w'.queue = w.queue ∧ w'.threads = w.threads.set t (some ⟨op, .wait⟩)) ∨
    (∃ t op b v, w.threads[t]? = some (some ⟨op, .test b⟩) ∧ op.mustWait w.queue = false ∧
      op.body w.queue = some w'.queue ∧
      signal (!op.side) v (w.threads.set t none) = some w'.threads) := by
  cases a with
  | call t op =>
    simp only [step] at h
    split at h
    · rename_i hc; cases h; exact .inl ⟨t, _, _, hc, .call op, rfl, rfl⟩
    · cases h
  | lock t =>
    simp only [step] at h
    split at h
    · rename_i hc; cases h; exact .inl ⟨t, _, _, hc, .lock _, rfl, rfl⟩
    · rename_i hc; cases h; exact .inl ⟨t, _, _, hc, .relock _, rfl, rfl⟩
    · cases h
  | test t v =>
    simp only [step] at h
    split at h
    · rename_i op b hc
      split at h
      · split at h
        · rename_i hm; cases h; exact .inr (.inl ⟨t, op, b, hc, hm, rfl, rfl⟩)
        · rename_i hm
          simp only [Option.bind_eq_some, Option.map_eq_some'] at h
          obtain ⟨q, hq, ts, hts, rfl⟩ := h
          exact .inr (.inr ⟨t, op, b, v, hc, by simpa using hm, hq, hts⟩)
      · cases h
    · cases h
  | spurious t =>
    simp only [step] at h
    split at h
    · rename_i hc; cases h; exact .inl ⟨t, _, _, hc, .wake _, rfl, rfl⟩
    · cases h

/-! ### Counting threads -/

theorem countP_set_add {β : Type} (p : β → Bool) {l : List β} {i : Nat} {b c : β}
    (h : l[i]? = some b) :
    (l.set i c).countP p + (if p b then 1 else 0) = l.countP p + (if p c then 1 else 0) := by
  obtain ⟨hi, rfl⟩ := List.getElem?_eq_some_iff.1 h
  have := List.boole_getElem_le_countP p l i hi
  rw [List.countP_set p l i c hi]
  omega

theorem LocalMove.waitsOn_le {c c' : Option (Caller α)} (h : LocalMove c c') (s : Bool) :
    (if waitsOn s c' then 1 else 0) ≤ (if waitsOn s c then 1 else 0) := by
  cases h <;> simp [waitsOn]

theorem LocalMove.wokenOn_le {c c' : Option (Caller α)} (h : LocalMove c c') (s : Bool) :
    (if wokenOn s c then 1 else 0) ≤ (if wokenOn s c' then 1 else 0) := by
  cases h <;> simp [wokenOn]

@[simp] theorem waitsOn_none (s : Bool) : waitsOn s (none : Option (Caller α)) = false := rfl
@[simp] theorem wokenOn_none (s : Bool) : wokenOn s (none : Option (Caller α)) = false := rfl
@[simp] theorem waitsOn_test (s : Bool) (op : Op α) (b : Bool) :
    waitsOn s (some ⟨op, .test b⟩) = false := rfl

theorem wokenOn_test_of_ne {s b : Bool} {op : Op α} (h : op.side ≠ s) :
    wokenOn s (some ⟨op, .test b⟩) = false := by
  cases b <;> simp [wokenOn, h]

/-- A signal on side `s` either finds no waiter and changes nothing, or moves one waiter of
side `s` from `wait` to `relock`. -/
theorem signal_counts {s : Bool} {v : Nat} {ts ts' : List (Option (Caller α))}
    (h : signal s v ts = some ts') (r : Bool) :
    (ts.countP (waitsOn s) = 0 ∧ ts' = ts) ∨
    (ts'.countP (waitsOn r) + (if s = r then 1 else 0) = ts.countP (waitsOn r) ∧
      ts'.countP (wokenOn r) = ts.countP (wokenOn r) + (if s = r then 1 else 0)) := by
  unfold signal at h
  split at h
  · split at h
    · rename_i c hc
      split at h
      · rename_i hw
        cases h
        obtain ⟨op, _ | _ | _ | _⟩ := c <;>
          simp only [waitsOn, beq_iff_eq, Bool.false_eq_true] at hw
        subst hw
        have h1 := countP_set_add (waitsOn r) (c := some ⟨op, .relock⟩) hc
        have h2 := countP_set_add (wokenOn r) (c := some ⟨op, .relock⟩) hc
        simp only [waitsOn, wokenOn, beq_iff_eq, Bool.false_eq_true, ↓reduceIte] at h1 h2
        refine .inr ?_
        by_cases hr : op.side = r <;> simp only [hr, ↓reduceIte] at h1 h2 ⊢ <;> omega
      · cases h
    · cases h
  · rename_i hn
    cases h
    exact .inl ⟨List.countP_eq_zero.2 fun c hc hw => hn (List.any_eq_true.2 ⟨c, hc, hw⟩), rfl⟩

theorem available_body {op : Op α} {q q' : TSQueue α} (h : op.body q = some q') :
    available op.side q' + 1 = available op.side q ∧
      available (!op.side) q' = available (!op.side) q + 1 := by
  cases op with
  | enqueue x =>
    obtain ⟨h1, h2⟩ := TSQueue.enqueueBody_some h
    simp [Op.side, available, h1, h2]
    omega
  | dequeue =>
    simp only [Op.body, Option.map_eq_some'] at h
    obtain ⟨⟨y, q''⟩, hd, rfl⟩ := h
    obtain ⟨h1, h2⟩ := TSQueue.dequeueBody_some hd
    simp [Op.side, available, h1, h2]
    omega

theorem available_of_mustWait {op : Op α} {q : TSQueue α} (h : op.mustWait q = true) :
    available op.side q = 0 := by
  cases op <;> simp only [Op.mustWait, decide_eq_true_eq] at h <;> simp [Op.side, available, h]

/-! ### The invariant -/

/-- The invariant for side `s` carries over to `w'` when no thread starts waiting on side `s` and
what side `s` can claim grows by no more than its woken threads. -/
theorem NoLostWakeup.transfer {s : Bool} (hw : NoLostWakeup w)
    (hwait : waiting s w' ≤ waiting s w)
    (hle : available s w'.queue + woken s w ≤ available s w.queue + woken s w') :
    0 < waiting s w' → available s w'.queue ≤ woken s w' := fun hs => by
  have := hw s (by omega)
  omega

theorem noLostWakeup_step (hw : NoLostWakeup w) (h : w.step a = some w') : NoLostWakeup w' := by
  intro s
  rcases step_cases h with ⟨t, c, c', hc, hm, hq, hts⟩ | ⟨t, op, b, hc, hwt, hq, hts⟩ |
    ⟨t, op, b, v, hc, hwt, hq, hts⟩
  · -- a local move: nobody starts waiting and nobody woken is lost
    have h1 := countP_set_add (waitsOn s) (c := c') hc
    have h2 := countP_set_add (wokenOn s) (c := c') hc
    have h3 := hm.waitsOn_le s
    have h4 := hm.wokenOn_le s
    refine hw.transfer ?_ ?_ <;> simp only [waiting, woken, hq, hts] <;> omega
  · -- a thread starts waiting: only when its own side can claim nothing
    by_cases hsd : op.side = s
    · subst hsd
      intro _
      rw [hq, available_of_mustWait hwt]
      exact Int.natCast_nonneg _
    · have h1 := countP_set_add (waitsOn s) (c := some ⟨op, .wait⟩) hc
      have h2 := countP_set_add (wokenOn s) (c := some ⟨op, .wait⟩) hc
      cases b <;> simp only [waitsOn, wokenOn, beq_iff_eq, hsd, Bool.false_eq_true,
        ↓reduceIte] at h1 h2 <;>
      refine hw.transfer ?_ ?_ <;> simp only [waiting, woken, hq, hts] <;> omega
  · -- a body runs: its own side loses one claim and at most one woken thread; the other side
    -- gains one claim and, if anyone waits there, one woken thread
    have h1 := countP_set_add (waitsOn s) (c := none) hc
    have h2 := countP_set_add (wokenOn s) (c := none) hc
    simp only [waitsOn_none, wokenOn_none, waitsOn_test, Bool.false_eq_true, ↓reduceIte,
      Nat.add_zero] at h1 h2
    obtain ⟨ha1, ha2⟩ := available_body hq
    by_cases hsd : op.side = s
    · subst hsd
      have h3 : (if wokenOn op.side (some ⟨op, .test b⟩) then 1 else 0) ≤ 1 := by
        split <;> omega
      have hns : ((!op.side) = op.side) = False := by cases op.side <;> simp
      rcases signal_counts hts op.side with ⟨-, he⟩ | ⟨hc1, hc2⟩
      · refine hw.transfer ?_ ?_ <;> simp only [waiting, woken, he] <;> omega
      · simp only [hns, ↓reduceIte] at hc1 hc2
        refine hw.transfer ?_ ?_ <;> simp only [waiting, woken] <;> omega
    · obtain rfl : s = !op.side := Bool.eq_not_iff.2 (Ne.symm hsd)
      rw [wokenOn_test_of_ne hsd] at h2
      simp only [Bool.false_eq_true, ↓reduceIte, Nat.add_zero] at h2
      rcases signal_counts hts (!op.side) with ⟨hz, he⟩ | ⟨hc1, hc2⟩
      · intro hs
        simp only [waiting, he] at hs
        omega
      · simp only [↓reduceIte] at hc1 hc2
        refine hw.transfer ?_ ?_ <;> simp only [waiting, woken] <;> omega

theorem noLostWakeup_init (q : TSQueue α) (n : Nat) :
    NoLostWakeup (⟨q, none, List.replicate n none⟩ : World α) := by
  intro s hs
  simp [waiting, List.countP_replicate, waitsOn] at hs

/-- **No lost wake-up.**  For every capacity and any number of threads, in every reachable world:
while some thread is blocked on `cond_dequeue`, `size` is at most the number of dequeuers woken
and not yet retested; while some thread is blocked on `cond_enqueue`, `buffer_size - size` is at
most the number of enqueuers woken and not yet retested. -/
theorem reachable_no_lost_wakeup {bs : Int} {n : Nat} (h : Reachable bs n w) :
    (0 < waiting false w → w.queue.size ≤ woken false w) ∧
    (0 < waiting true w → w.queue.buffer_size - w.queue.size ≤ woken true w) := by
  have hinv : NoLostWakeup w := by
    induction h with
    | init _ => exact noLostWakeup_init _ _
    | step _ hs ih => exact noLostWakeup_step ih hs
  exact ⟨hinv false, hinv true⟩

/-- Capacity 1 and four threads: two dequeuers wait on the empty queue; an enqueuer puts `7` in
and its signal wakes the first of them; a second enqueuer finds the queue full and waits.  The
dequeuer still waiting is covered by the one woken (one item, one woken dequeuer), and the
waiting enqueuer by the free slots (none). -/
theorem reachable_no_lost_wakeup_after_signal :
    waiting false (⟨⟨1, [some 7], 1, 0, 0⟩, none, [some ⟨.dequeue, .relock⟩,
        some ⟨.dequeue, .wait⟩, none, some ⟨.enqueue 8, .wait⟩]⟩ : World Nat) = 1 ∧
      waiting true (⟨⟨1, [some 7], 1, 0, 0⟩, none, [some ⟨.dequeue, .relock⟩,
        some ⟨.dequeue, .wait⟩, none, some ⟨.enqueue 8, .wait⟩]⟩ : World Nat) = 1 ∧
      (0 < waiting false (⟨⟨1, [some 7], 1, 0, 0⟩, none, [some ⟨.dequeue, .relock⟩,
          some ⟨.dequeue, .wait⟩, none, some ⟨.enqueue 8, .wait⟩]⟩ : World Nat) →
        (1 : Int) ≤ woken false (⟨⟨1, [some 7], 1, 0, 0⟩, none, [some ⟨.dequeue, .relock⟩,
          some ⟨.dequeue, .wait⟩, none, some ⟨.enqueue 8, .wait⟩]⟩ : World Nat)) ∧
      (0 < waiting true (⟨⟨1, [some 7], 1, 0, 0⟩, none, [some ⟨.dequeue, .relock⟩,
          some ⟨.dequeue, .wait⟩, none, some ⟨.enqueue 8, .wait⟩]⟩ : World Nat) →
        (1 : Int) - 1 ≤ woken true (⟨⟨1, [some 7], 1, 0, 0⟩, none, [some ⟨.dequeue, .relock⟩,
          some ⟨.dequeue, .wait⟩, none, some ⟨.enqueue 8, .wait⟩]⟩ : World Nat)) := by
  have h₀ : Reachable 1 4 (⟨⟨1, [none], 0, 0, -1⟩, none, List.replicate 4 none⟩ : World Nat) :=
    .init rfl
  -- the two dequeuers wait; the first enqueuer's signal wakes thread 0; the second waits
  have h := h₀
    |>.step (a := .call 0 .dequeue) rfl |>.step (a := .lock 0) rfl |>.step (a := .test 0 0) rfl
    |>.step (a := .call 1 .dequeue) rfl |>.step (a := .lock 1) rfl |>.step (a := .test 1 0) rfl
    |>.step (a := .call 2 (.enqueue 7)) rfl |>.step (a := .lock 2) rfl
    |>.step (a := .test 2 0) rfl
    |>.step (a := .call 3 (.enqueue 8)) rfl |>.step (a := .lock 3) rfl
    |>.step (a := .test 3 0) rfl
  exact ⟨rfl, rfl, reachable_no_lost_wakeup h⟩

/-- The queue of every reachable world is a queue reachable by whole calls: the pthread steps
refine the atomic calls of `NthuOs.Queue.Ring`. -/
theorem reachable_queue {bs : Int} {n : Nat} (h : Reachable bs n w) :
    TSQueue.Reachable bs w.queue := by
  induction h with
  | init hc => exact .create hc
  | step _ hs ih =>
    rcases step_cases hs with ⟨_, _, _, _, _, hq, _⟩ | ⟨_, _, _, _, _, hq, _⟩ |
      ⟨_, op, _, _, _, hwt, hq, _⟩
    · rwa [hq]
    · rwa [hq]
    · cases op with
      | enqueue x =>
        simp only [Op.mustWait, decide_eq_false_iff_not] at hwt
        exact .enqueue ih (by rw [TSQueue.enqueue, if_neg hwt]; exact hq)
      | dequeue =>
        simp only [Op.mustWait, decide_eq_false_iff_not] at hwt
        simp only [Op.body, Option.map_eq_some'] at hq
        obtain ⟨⟨y, _⟩, hd, rfl⟩ := hq
        exact .dequeue (x := y) ih (by rw [TSQueue.dequeue, if_neg hwt]; exact hd)

end World

end NthuOs

import NthuOs.Pipeline.Basic

/-!
# The consumer controller

`ConsumerController::process` (`consumer_controller.hpp`) loops forever.  Each turn it sleeps,
reads `worker_queue->get_size()` and, when the queue is more than `high_threshold` percent full,
creates and starts a Consumer and appends it to its `consumers` vector; otherwise it reads the size
again and, when the queue is less than `low_threshold` percent full and the vector holds more than
one Consumer, calls `cancel()` on the last one and pops it.

The controller's world is its vector and the table of every Consumer it has created, in creation
order; the vector holds indices into the table.  `Controller.step` is one step of `process`; a
step that reads `get_size()` takes the value read as an argument, and `Controller.Reachable`
lets every read return any value.  `Consumer::cancel` is two steps (`is_cancel = true`, then
`pthread_cancel`), since the Consumer's thread can run between them.

`Controller.reachable_pool_live` is the invariant: at every tick boundary the vector is exactly
the Consumers created and not cancelled, in creation order, without duplicates; every scale-down
cancels the most recently created live Consumer, which has not been cancelled before.

The model follows the code where its comments say otherwise.  The comments on `low_threshold` and
`high_threshold` speak of a number of items; `process` compares the fraction
`get_size() / get_max_buffersize()` with the threshold read as a percentage (`above`, `below`).
The comment on `check_period` speaks of microseconds; `process` sleeps `check_period / 1000`
microseconds, and time is not modelled.
-/

namespace NthuOs

/-- Where `ConsumerController::process` is in its loop. -/
inductive ControllerPc where
  /-- Top of the loop: `usleep`, then the scale-up test. -/
  | scaleUp
  /-- The scale-down test, which reads `get_size()` again. -/
  | scaleDown
  /-- Inside `temp->cancel()` on Consumer `c`: `is_cancel` is set; `pthread_cancel` and
  `pop_back` are next. -/
  | cancel (c : Nat)
  deriving DecidableEq, Repr

/-- The state of the controller thread. -/
structure Controller where
  /-- `consumers`: indices into the table of created Consumers, in the vector's order. -/
  consumers : List Nat
  pc : ControllerPc
  deriving DecidableEq, Repr

/-- `(double)size / max > (double)threshold / 100`.  For `max > 0` this is the exact comparison
of the two quotients; on the values that reach it (`0 ≤ size ≤ max`) two different quotients
differ by at least `1 / (100 * max)`, far more than a double rounds, so the doubles compare the
same way. -/
def above (size max threshold : Int) : Bool := decide (threshold * max < size * 100)

/-- `(double)size / max < (double)threshold / 100`, as `above`. -/
def below (size max threshold : Int) : Bool := decide (size * 100 < threshold * max)

/-- `consumers[c]->is_cancel = true`. -/
def setCancel (cs : List Consumer) (c : Nat) : List Consumer :=
  cs.modify (fun k => { k with is_cancel := true }) c

/-- `pthread_cancel(consumers[c]->t)`: a cancellation request for its thread.  The model keeps
every Consumer object, so this step is defined even when the thread has already run
`delete consumer`; there the C code reads `t` from freed memory, and that state is reachable
(`Pipeline.cancel_after_delete`). -/
def setPending (cs : List Consumer) (c : Nat) : List Consumer :=
  cs.modify (fun k => { k with cancel_pending := true }) c

namespace Controller

/-- One step of `ConsumerController::process`, where `size` is the value `get_size()` returns and
`max` is `get_max_buffersize()`. -/
def step (low high max size : Int) (ctl : Controller) (cs : List Consumer) :
    Controller × List Consumer :=
  match ctl.pc with
  | .scaleUp =>
    if above size max high then (⟨ctl.consumers ++ [cs.length], .scaleUp⟩, cs ++ [Consumer.new])
    else (⟨ctl.consumers, .scaleDown⟩, cs)
  | .scaleDown =>
    if below size max low ∧ 1 < ctl.consumers.length then
      let c := ctl.consumers.getD (ctl.consumers.length - 1) 0
      (⟨ctl.consumers, .cancel c⟩, setCancel cs c)
    else (⟨ctl.consumers, .scaleUp⟩, cs)
  | .cancel c => (⟨ctl.consumers.dropLast, .scaleUp⟩, setPending cs c)

/-- The controller as `main` starts it: an empty vector and no Consumer created. -/
def init : Controller := ⟨[], .scaleUp⟩

/-- The states of the controller and its Consumers after any number of steps, whatever sizes its
reads return. -/
inductive Reachable (low high max : Int) : Controller × List Consumer → Prop
  | init : Reachable low high max (init, [])
  | step {ctl : Controller} {cs : List Consumer} (size : Int) :
      Reachable low high max (ctl, cs) → Reachable low high max (ctl.step low high max size cs)

/-- The steps whose reads return `sizes`, in order. -/
def run (low high max : Int) (sizes : List Int) (w : Controller × List Consumer) :
    Controller × List Consumer :=
  sizes.foldl (fun w size => w.1.step low high max size w.2) w

theorem Reachable.run {low high max : Int} {w : Controller × List Consumer}
    (h : Reachable low high max w) (sizes : List Int) :
    Reachable low high max (Controller.run low high max sizes w) := by
  induction sizes generalizing w with
  | nil => exact h
  | cons size sizes ih => exact ih (.step size h)

end Controller

/-- Consumer `c` has been created and not cancelled. -/
def isLive (cs : List Consumer) (c : Nat) : Bool :=
  match cs[c]? with
  | some k => !k.is_cancel
  | none => false

/-- The Consumers created and not cancelled, in creation order. -/
def live (cs : List Consumer) : List Nat := (List.range cs.length).filter (isLive cs)

/-! ### The live Consumers under each update of the table -/

section Live

variable {cs : List Consumer} {c : Nat} {f : Consumer → Consumer}

/-- An update of Consumer `c` that keeps `is_cancel` keeps every Consumer live or not. -/
theorem isLive_modify (hf : ∀ k, (f k).is_cancel = k.is_cancel) (i : Nat) :
    isLive (cs.modify f c) i = isLive cs i := by
  unfold isLive
  rw [List.getElem?_modify]
  cases cs[i]? with
  | none => rfl
  | some k => by_cases h : c = i <;> simp [h, hf]

theorem isLive_setCancel (i : Nat) : isLive (setCancel cs c) i = (isLive cs i && i != c) := by
  unfold isLive setCancel
  rw [List.getElem?_modify]
  cases cs[i]? with
  | none => rfl
  | some k =>
    by_cases h : c = i
    · subst h; simp
    · simp [h, Ne.symm h]

theorem live_append_new : live (cs ++ [Consumer.new]) = live cs ++ [cs.length] := by
  simp only [live, List.length_append, List.length_singleton, List.range_succ, List.filter_append]
  congr 1
  · refine List.filter_congr fun i hi => ?_
    simp only [isLive, List.getElem?_append_left (List.mem_range.1 hi)]
  · simp [isLive, Consumer.new]

theorem live_modify (hf : ∀ k, (f k).is_cancel = k.is_cancel) : live (cs.modify f c) = live cs := by
  simp only [live, List.length_modify]
  exact List.filter_congr fun i _ => isLive_modify hf i

theorem live_setCancel : live (setCancel cs c) = (live cs).filter (· != c) := by
  have hl : (setCancel cs c).length = cs.length := List.length_modify _ _ _
  rw [live, live, hl, List.filter_filter]
  exact List.filter_congr fun i _ => by rw [isLive_setCancel, Bool.and_comm]

theorem live_pairwise (cs : List Consumer) : (live cs).Pairwise (· < ·) :=
  (List.pairwise_lt_range _).filter _

theorem isLive_of_mem_live (h : c ∈ live cs) : isLive cs c = true := (List.mem_filter.1 h).2

end Live

/-! ### What the controller does to the table -/

/-- Consumer `c` of `cs` is still in `cs'`, its thread where it was with the same cancelability
state, and `is_cancel` and a pending request, once set, still set. -/
def Kept (c : Nat) (cs cs' : List Consumer) : Prop :=
  ∀ k, cs[c]? = some k → ∃ k', cs'[c]? = some k' ∧ k'.pc = k.pc ∧
    k'.cancel_enabled = k.cancel_enabled ∧ (k.is_cancel = true → k'.is_cancel = true) ∧
    (k.cancel_pending = true → k'.cancel_pending = true)

/-- `cs'` is `cs` with flags set and new Consumers appended. -/
structure Grows (cs cs' : List Consumer) : Prop where
  old : ∀ c, Kept c cs cs'
  new : ∀ (c : Nat) (k' : Consumer), cs[c]? = none → cs'[c]? = some k' → k' = Consumer.new

theorem Kept.refl (c : Nat) (cs : List Consumer) : Kept c cs cs :=
  fun k hk => ⟨k, hk, rfl, rfl, id, id⟩

theorem Kept.set {c d : Nat} {cs : List Consumer} (k' : Consumer) (h : d ≠ c) :
    Kept c cs (cs.set d k') := fun k hk => ⟨k, by rw [List.getElem?_set_ne h, hk], rfl, rfl, id, id⟩

theorem Grows.refl (cs : List Consumer) : Grows cs cs :=
  ⟨fun c => Kept.refl c cs, fun _ _ h h' => by rw [h] at h'; cases h'⟩

/-- An update of Consumer `c` that moves no thread, keeps its cancelability state and only sets
flags. -/
theorem grows_modify {f : Consumer → Consumer} (cs : List Consumer) (d : Nat)
    (hf : ∀ k, (f k).pc = k.pc ∧ (f k).cancel_enabled = k.cancel_enabled ∧
      (k.is_cancel = true → (f k).is_cancel = true) ∧
      (k.cancel_pending = true → (f k).cancel_pending = true)) :
    Grows cs (cs.modify f d) := by
  constructor
  · intro c k hk
    rw [List.getElem?_modify, hk]
    by_cases hc : d = c
    · exact ⟨f k, by simp [hc], hf k⟩
    · exact ⟨k, by simp [hc], rfl, rfl, id, id⟩
  · intro c k' hk hk'
    rw [List.getElem?_modify, hk] at hk'
    cases hk'

theorem map_pc_modify {f : Consumer → Consumer} (hf : ∀ k, (f k).pc = k.pc)
    (cs : List Consumer) (c : Nat) : (cs.modify f c).map Consumer.pc = cs.map Consumer.pc := by
  refine List.ext_getElem? fun i => ?_
  rw [List.getElem?_map, List.getElem?_map, List.getElem?_modify]
  cases cs[i]? with
  | none => rfl
  | some k => by_cases h : c = i <;> simp [h, hf]

theorem grows_append_new (cs : List Consumer) : Grows cs (cs ++ [Consumer.new]) := by
  constructor
  · intro c k hk
    exact ⟨k, by rw [List.getElem?_append_left (List.getElem?_eq_some_iff.1 hk).1, hk],
      rfl, rfl, id, id⟩
  · intro c k' hk hk'
    rw [List.getElem?_eq_none_iff] at hk
    rw [List.getElem?_append_right hk] at hk'
    rcases h : c - cs.length with _ | n
    · rw [h] at hk'; exact (Option.some.inj hk').symm
    · rw [h] at hk'; simp at hk'

/-- What one step of the controller does to the table: nothing, append a new Consumer, set
`is_cancel` of one, or make a cancellation request for one. -/
theorem Controller.step_table (low high max size : Int) (ctl : Controller) (cs : List Consumer) :
    (ctl.step low high max size cs).2 = cs ∨ (ctl.step low high max size cs).2 = cs ++ [.new] ∨
      ∃ c, (ctl.step low high max size cs).2 = setCancel cs c ∨
        (ctl.step low high max size cs).2 = setPending cs c := by
  unfold Controller.step
  split
  · split
    · exact .inr (.inl rfl)
    · exact .inl rfl
  · split
    · exact .inr (.inr ⟨_, .inl rfl⟩)
    · exact .inl rfl
  · exact .inr (.inr ⟨_, .inr rfl⟩)

theorem Controller.grows_step (low high max size : Int) (ctl : Controller) (cs : List Consumer) :
    Grows cs (ctl.step low high max size cs).2 := by
  rcases step_table low high max size ctl cs with h | h | ⟨c, h | h⟩ <;> rw [h]
  · exact Grows.refl cs
  · exact grows_append_new cs
  · exact grows_modify cs c fun _ => ⟨rfl, rfl, fun _ => rfl, id⟩
  · exact grows_modify cs c fun _ => ⟨rfl, rfl, id, fun _ => rfl⟩

/-- The controller moves no Consumer's thread; a scale-up starts a new one at the top of
`process`. -/
theorem Controller.map_pc_step (low high max size : Int) (ctl : Controller)
    (cs : List Consumer) :
    (ctl.step low high max size cs).2.map Consumer.pc = cs.map Consumer.pc ∨
      (ctl.step low high max size cs).2.map Consumer.pc = cs.map Consumer.pc ++ [.start] := by
  rcases step_table low high max size ctl cs with h | h | ⟨c, h | h⟩ <;> rw [h]
  · exact .inl rfl
  · exact .inr (by simp [Consumer.new])
  · exact .inl (by rw [setCancel, map_pc_modify]; exact fun _ => rfl)
  · exact .inl (by rw [setPending, map_pc_modify]; exact fun _ => rfl)

theorem dropLast_append_getD {l : List Nat} (h : l ≠ []) (d : Nat) :
    l.dropLast ++ [l.getD (l.length - 1) d] = l := by
  rw [List.getD_eq_getElem?_getD, ← List.getLast?_eq_getElem?, List.getLast?_eq_getLast l h,
    Option.getD_some, List.dropLast_append_getLast h]

/-! ### The invariant -/

namespace Controller

variable {low high max : Int}

/-- The vector holds the live Consumers, followed, in the middle of `cancel()`, by the Consumer
being cancelled. -/
def PoolInv : Controller × List Consumer → Prop
  | (ctl, cs) =>
    match ctl.pc with
    | .cancel c => ctl.consumers = live cs ++ [c]
    | _ => ctl.consumers = live cs

/-- The Consumer a scale-down cancels is the last live one. -/
theorem scaleDown_target {ctl : Controller} {cs : List Consumer} (hv : ctl.consumers = live cs)
    (hlen : 1 < ctl.consumers.length) :
    live cs = (live cs).dropLast ++ [ctl.consumers.getD (ctl.consumers.length - 1) 0] := by
  rw [hv, dropLast_append_getD (by rw [← hv]; intro h; simp [h] at hlen)]

theorem poolInv_step {ctl : Controller} {cs : List Consumer} (size : Int)
    (h : PoolInv (ctl, cs)) : PoolInv (ctl.step low high max size cs) := by
  obtain ⟨v, pc⟩ := ctl
  cases pc with
  | scaleUp =>
    simp only [PoolInv] at h
    simp only [step]
    split
    · simp only [PoolInv, h, live_append_new]
    · exact h
  | scaleDown =>
    simp only [PoolInv] at h
    simp only [step]
    split
    · rename_i hb
      have ht := @scaleDown_target ⟨v, .scaleDown⟩ cs h hb.2
      simp only at ht
      simp only [PoolInv, live_setCancel]
      rw [ht, List.filter_append]
      have hlt := live_pairwise cs
      rw [ht, List.pairwise_append] at hlt
      rw [List.filter_eq_self.2]
      · simpa using h.trans ht
      · intro a ha
        have := hlt.2.2 a ha _ (List.mem_singleton_self _)
        simp only [bne_iff_ne, ne_eq]
        omega
    · exact h
  | cancel c =>
    simp only [PoolInv] at h
    simp only [step, PoolInv, setPending, h, List.dropLast_concat]
    rw [live_modify]
    exact fun _ => rfl

theorem Reachable.poolInv {w : Controller × List Consumer} (h : Reachable low high max w) :
    PoolInv w := by
  induction h with
  | init => rfl
  | step size _ ih => exact poolInv_step size ih

/-- **The pool is the list of live Consumers.**  For every run of `ConsumerController::process`,
whatever sizes its reads return: at every tick boundary the vector is exactly the Consumers
created and not cancelled, in creation order and without duplicates; and every scale-down cancels
the most recently created live Consumer, which is live until then, so no Consumer is cancelled
twice and none leaves the vector without being cancelled. -/
theorem reachable_pool_live {w : Controller × List Consumer} (h : Reachable low high max w) :
    (w.1.pc = .scaleUp → w.1.consumers = live w.2 ∧ w.1.consumers.Pairwise (· < ·)) ∧
    ∀ size c, (w.1.step low high max size w.2).1.pc = .cancel c →
      (live w.2).getLast? = some c ∧ isLive w.2 c = true := by
  have hinv := h.poolInv
  obtain ⟨⟨v, pc⟩, cs⟩ := w
  refine ⟨fun hpc => ?_, fun size c hc => ?_⟩
  · simp only at hpc
    subst hpc
    exact ⟨hinv, hinv ▸ live_pairwise cs⟩
  · cases pc with
    | scaleUp => simp only [step] at hc; split at hc <;> simp at hc
    | cancel d => simp [step] at hc
    | scaleDown =>
      simp only [PoolInv] at hinv
      simp only [step] at hc
      split at hc
      · rename_i hb
        simp only [ControllerPc.cancel.injEq] at hc
        subst hc
        have ht := @scaleDown_target ⟨v, .scaleDown⟩ cs hinv hb.2
        exact ⟨by rw [ht, List.getLast?_concat], isLive_of_mem_live (by rw [ht]; simp)⟩
      · simp at hc

/-- With `main`'s thresholds and capacity, reads of 200, 200 and 0 bring the controller to its
scale-down test with two Consumers; a read of 0 there cancels Consumer 1, the last live one; after
its `pthread_cancel` the vector is the one live Consumer left. -/
theorem reachable_pool_live_scale_down :
    run 20 80 200 [200, 200, 0] (init, []) = (⟨[0, 1], .scaleDown⟩, [.new, .new]) ∧
      ((⟨[0, 1], .scaleDown⟩ : Controller).step 20 80 200 0 [.new, .new]).1.pc = .cancel 1 ∧
      ((live [.new, .new]).getLast? = some 1 ∧ isLive [.new, .new] 1 = true) ∧
      run 20 80 200 [200, 200, 0, 0, 0] (init, []) =
        (⟨[0], .scaleUp⟩, [.new, ⟨.start, true, true, true⟩]) ∧
      [0] = live [.new, ⟨.start, true, true, true⟩] ∧ [0].Pairwise (· < ·) := by
  have e₁ : run 20 80 200 [200, 200, 0] (init, []) = (⟨[0, 1], .scaleDown⟩, [.new, .new]) := by
    decide
  have e₂ : run 20 80 200 [200, 200, 0, 0, 0] (init, []) =
      (⟨[0], .scaleUp⟩, [.new, ⟨.start, true, true, true⟩]) := by
    decide
  have h₁ := (@Reachable.init 20 80 200).run [200, 200, 0]
  have h₂ := (@Reachable.init 20 80 200).run [200, 200, 0, 0, 0]
  rw [e₁] at h₁
  rw [e₂] at h₂
  exact ⟨e₁, rfl, (reachable_pool_live h₁).2 0 1 rfl, e₂, (reachable_pool_live h₂).1 rfl⟩

end Controller

end NthuOs

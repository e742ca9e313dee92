import NthuOs.Pipeline.Invariant

/-!
# Cancelling a Consumer

`Consumer::cancel` sets `is_cancel` and then calls `pthread_cancel`.  `Consumer::process` disables
cancellation from the top of each turn of its loop to the end of its `enqueue`, and the only
cancellation points it reaches (`pthread_cond_wait` inside `dequeue` and `enqueue`) lie inside
that window, so the request never acts (`Pipeline.Sound.cancelStep_eq_none`).  The thread leaves
only through the loop-head test of `is_cancel`.

`Pipeline.dequeuesBy` counts the `dequeue` calls of one Consumer along a run of the whole
pipeline.  `ConsumerPc.budget` bounds what a thread whose `is_cancel` is set can still do: one
`dequeue` if it is between `PTHREAD_CANCEL_DISABLE` and its `dequeue`, none elsewhere.  One step
of any thread never raises the budget and spends it on a `dequeue` (`Pipeline.budget_step`); so
along every run the bound holds (`Pipeline.dequeuesBy_le_budget`).
`Pipeline.cancelled_consumer_exits_at_loop_head` is the result.
-/

namespace NthuOs

/-- The `dequeue` calls a thread at `pc` whose `is_cancel` is set can still make. -/
def ConsumerPc.budget : ConsumerPc → Nat
  | .disable | .check | .dequeue => 1
  | _ => 0

namespace Pipeline

/-- The step `a` is Consumer `c`'s `dequeue`. -/
def DequeueBy (c : Nat) (s : Pipeline) (a : Actor) : Prop :=
  a = .consumer c ∧ s.consumers[c]?.map Consumer.pc = some .dequeue

instance (c : Nat) (s : Pipeline) (a : Actor) : Decidable (DequeueBy c s a) :=
  inferInstanceAs (Decidable (_ ∧ _))

/-- The `dequeue` calls of Consumer `c` along the run `as` from `s`, which stops at the first step
that cannot be taken. -/
def dequeuesBy (cfg : Config) (tf : Transformer) (input : List Item) (c : Nat) :
    Pipeline → List Actor → Nat
  | _, [] => 0
  | s, a :: as =>
    match s.step cfg tf input a with
    | none => 0
    | some s' => (if DequeueBy c s a then 1 else 0) + dequeuesBy cfg tf input c s' as

variable {cfg : Config} {tf : Transformer} {input : List Item} {s s' : Pipeline} {c : Nat}
  {k : Consumer}

theorem getElem?_setConsumer_self (hk : s.consumers[c]? = some k) (k' : Consumer) :
    (s.setConsumer c k').consumers[c]? = some k' :=
  List.getElem?_set_self (List.getElem?_eq_some_iff.1 hk).1

/-- A step of Consumer `c` itself, once `is_cancel` is set: `is_cancel` stays set, and the
budget pays for a `dequeue`. -/
theorem ConsumerMove.budget (hm : ConsumerMove tf s c k s') (hk : s.consumers[c]? = some k)
    (hc : k.is_cancel = true) :
    ∃ k', s'.consumers[c]? = some k' ∧ k'.is_cancel = true ∧
      (if k.pc = .dequeue then 1 else 0) + k'.pc.budget ≤ k.pc.budget := by
  have hset := getElem?_setConsumer_self hk
  cases hm with
  | enter _ hf => rw [hc] at hf; cases hf
  | start hpc | exit hpc | disable hpc | idle hpc | check hpc | dequeue hpc | transform hpc
  | enqueue hpc | enable hpc =>
    exact ⟨_, hset _, hc, by simp [hpc, ConsumerPc.budget]⟩

/-- **One step.**  From a sound state where Consumer `c` has `is_cancel` set, after any step of
any thread, `is_cancel` is still set and the budget has gone down by the `dequeue` the step made,
if any. -/
theorem budget_step {a : Actor} (hs : Sound cfg s) (h : s.step cfg tf input a = some s')
    (hk : s.consumers[c]? = some k) (hc : k.is_cancel = true) :
    ∃ k', s'.consumers[c]? = some k' ∧ k'.is_cancel = true ∧
      (if DequeueBy c s a then 1 else 0) + k'.pc.budget ≤ k.pc.budget := by
  by_cases ha : a = .consumer c
  · subst ha
    obtain ⟨k₀, hk₀, hm⟩ := consumerStep_some h
    rw [hk] at hk₀
    cases hk₀
    obtain ⟨k', hk', hc', hb⟩ := hm.budget hk hc
    refine ⟨k', hk', hc', ?_⟩
    simpa [DequeueBy, hk] using hb
  · obtain ⟨k', hk', hpc, -, hcan, -⟩ := step_kept hs h ha k hk
    refine ⟨k', hk', hcan hc, ?_⟩
    simp [DequeueBy, ha, hpc]

/-- **The run.**  Along every run from a sound state where Consumer `c` has `is_cancel` set, the
Consumer makes at most as many `dequeue` calls as its budget. -/
theorem dequeuesBy_le_budget (hs : Sound cfg s) (hk : s.consumers[c]? = some k)
    (hc : k.is_cancel = true) (as : List Actor) :
    dequeuesBy cfg tf input c s as ≤ k.pc.budget := by
  induction as generalizing s k with
  | nil => exact Nat.zero_le _
  | cons a as ih =>
    unfold dequeuesBy
    cases h : s.step cfg tf input a with
    | none => exact Nat.zero_le _
    | some s' =>
      obtain ⟨k', hk', hc', hb⟩ := budget_step hs h hk hc
      have := ih (step_sound hs h) hk' hc'
      simp only
      omega

/-- A step that ends Consumer `c`'s thread is the thread's own loop-head test of `is_cancel`. -/
theorem step_ends_thread {a : Actor} {k' : Consumer} (hs : Sound cfg s)
    (h : s.step cfg tf input a = some s') (hk : s.consumers[c]? = some k)
    (hk' : s'.consumers[c]? = some k') (hne : k'.pc ≠ k.pc)
    (hend : k'.pc = .exited ∨ k'.pc = .cancelled) :
    a = .consumer c ∧ k.pc = .loop ∧ k.is_cancel = true := by
  by_cases ha : a = .consumer c
  · subst ha
    obtain ⟨k₀, hk₀, hm⟩ := consumerStep_some h
    rw [hk] at hk₀
    cases hk₀
    have hset := getElem?_setConsumer_self hk
    cases hm with
    | exit hpc hc => exact ⟨rfl, hpc, hc⟩
    | start | enter | disable | idle | check | dequeue | transform | enqueue | enable =>
      rw [hset] at hk'; cases hk'; simp at hend
  · obtain ⟨k'', hk'', hpc, -⟩ := step_kept hs h ha k hk
    rw [hk'] at hk''
    cases hk''
    exact absurd hpc hne

/-- **A cancelled Consumer finishes its turn and leaves at the loop head.**  In every reachable
state of the pipeline, under every interleaving with the controller's `cancel` and every other
thread: once Consumer `c` has `is_cancel` set, every run from there contains at most one more
`dequeue` by it; and a step that ends its thread is its own test of `is_cancel` at the loop head,
outside the `PTHREAD_CANCEL_DISABLE` window, never a cancellation request acting. -/
theorem cancelled_consumer_exits_at_loop_head (hv : cfg.Valid) (hr : Reachable cfg tf input s) :
    (∀ k, s.consumers[c]? = some k → k.is_cancel = true →
      ∀ as, dequeuesBy cfg tf input c s as ≤ 1) ∧
    (∀ a s' k k', s.step cfg tf input a = some s' → s.consumers[c]? = some k →
      s'.consumers[c]? = some k' → k'.pc ≠ k.pc → (k'.pc = .exited ∨ k'.pc = .cancelled) →
      a = .consumer c ∧ k.pc = .loop ∧ k.is_cancel = true) := by
  have hs := hr.sound hv
  refine ⟨fun k hk hc as => (dequeuesBy_le_budget hs hk hc as).trans ?_,
    fun a s' k k' h hk hk' hne hend => step_ends_thread hs h hk hk' hne hend⟩
  cases k.pc <;> simp [ConsumerPc.budget]

/-- At `pendingCancel`, Consumer 1 has `is_cancel` set and is blocked in its `dequeue`: every run
from there lets it make at most that one `dequeue`, and no step but its own test of `is_cancel` at
the loop head can end its thread. -/
theorem cancelled_consumer_exits_at_loop_head_pendingCancel :
    pendingCancel.consumers[1]? = some ⟨.dequeue, true, false, true⟩ ∧
    (∀ k, pendingCancel.consumers[1]? = some k → k.is_cancel = true →
      ∀ as, dequeuesBy Config.oneSlot ⟨fun _ v => v + 1, fun _ v => v * 2⟩
        [⟨1, 10, 0⟩, ⟨2, 20, 0⟩, ⟨3, 30, 0⟩] 1 pendingCancel as ≤ 1) ∧
    (∀ a s' k k', pendingCancel.step Config.oneSlot ⟨fun _ v => v + 1, fun _ v => v * 2⟩
        [⟨1, 10, 0⟩, ⟨2, 20, 0⟩, ⟨3, 30, 0⟩] a = some s' →
      pendingCancel.consumers[1]? = some k → s'.consumers[1]? = some k' → k'.pc ≠ k.pc →
      (k'.pc = .exited ∨ k'.pc = .cancelled) →
      a = .consumer 1 ∧ k.pc = .loop ∧ k.is_cancel = true) :=
  ⟨rfl, cancelled_consumer_exits_at_loop_head Config.oneSlot_valid reachable_pendingCancel⟩

end Pipeline

end NthuOs

import NthuOs.Pipeline.Conservation

/-!
# The size of the Consumer pool

`main` starts the ConsumerController with an empty `consumers` vector and creates no Consumer
itself; the controller creates one only at a tick where `worker_queue` is more than
`high_threshold` percent full.  With the constants of `main` (capacity 200, 80 percent) that is
more than 160 items in `worker_queue`, and `worker_queue` never holds more items than the Reader
has read (`Pipeline.Accounted.length_worker_le`).

* `Pipeline.small_input_no_consumer`: for an input of at most 160 items, in every reachable state
  of the pipeline the vector is empty, no Consumer exists, and nothing has reached `output_queue`
  or the Writer.  The pool has size 0 for the whole run, and the Writer never receives its `n`
  items.
* `Controller.reachable_vector_nonempty`: once a Consumer has been created the vector never
  becomes empty again, since a scale-down needs two Consumers in it.
* `Pipeline.reachable_poolInv`: in the whole pipeline, whatever the Consumers' threads do, the
  vector is the list of live Consumers as `Controller.reachable_pool_live` says of the controller
  alone.
-/

namespace NthuOs

/-! ### The controller with no Consumer -/

namespace Controller

variable {low high max size : Int}

/-- With nothing above the high threshold, an empty vector and table stay empty. -/
theorem step_nil {ctl : Controller} (hv : ctl.consumers = []) (h : above size max high = false) :
    (ctl.step low high max size []).1.consumers = [] ∧ (ctl.step low high max size []).2 = [] := by
  obtain ⟨v, pc⟩ := ctl
  subst hv
  cases pc <;> simp [step, h, setPending]

/-- Once a Consumer exists the vector holds one, and two while one is being cancelled. -/
def VectorInv : Controller × List Consumer → Prop
  | (ctl, cs) =>
    (cs ≠ [] → 1 ≤ ctl.consumers.length) ∧ ∀ c, ctl.pc = .cancel c → 2 ≤ ctl.consumers.length

theorem vectorInv_step {ctl : Controller} {cs : List Consumer} (h : VectorInv (ctl, cs)) :
    VectorInv (ctl.step low high max size cs) := by
  obtain ⟨h₁, h₂⟩ := h
  obtain ⟨v, pc⟩ := ctl
  cases pc with
  | scaleUp =>
    simp only [step]
    split
    · exact ⟨fun _ => by simp, fun _ h => nomatch h⟩
    · exact ⟨h₁, fun _ h => nomatch h⟩
  | scaleDown =>
    simp only [step]
    split
    · rename_i hb
      refine ⟨fun hc => h₁ ?_, fun _ _ => hb.2⟩
      intro hcs
      rw [hcs] at hc
      exact hc (List.modify_nil _ _)
    · exact ⟨h₁, fun _ h => nomatch h⟩
  | cancel c =>
    have : 2 ≤ v.length := h₂ c rfl
    refine ⟨fun _ => ?_, fun _ h => nomatch h⟩
    simp only [List.length_dropLast]
    omega

/-- **Once created, the pool never becomes empty again.**  In every run of
`ConsumerController::process`, whatever sizes its reads return, from the first scale-up on the
`consumers` vector holds at least one Consumer. -/
theorem reachable_vector_nonempty {w : Controller × List Consumer}
    (h : Reachable low high max w) (hw : w.2 ≠ []) : w.1.consumers ≠ [] := by
  have hinv : VectorInv w := by
    clear hw
    induction h with
    | init => exact ⟨fun h => absurd rfl h, fun _ h => nomatch h⟩
    | step _ _ ih => exact vectorInv_step ih
  intro hv
  have := hinv.1 hw
  rw [hv] at this
  exact absurd this (by decide)

/-- With `main`'s thresholds and capacity, reads of 200 and 200 start two Consumers, reads of 0
scale down to one, and a turn with reads of 0 again meets the `consumers.size() > 1` guard: the
vector keeps its last Consumer. -/
theorem reachable_vector_nonempty_after_scale_down :
    run 20 80 200 [200, 200, 0, 0, 0, 0, 0] (init, []) =
        (⟨[0], .scaleUp⟩, [.new, ⟨.start, true, true, true⟩]) ∧
      [Consumer.new, ⟨.start, true, true, true⟩] ≠ [] ∧ ([0] : List Nat) ≠ [] := by
  have e : run 20 80 200 [200, 200, 0, 0, 0, 0, 0] (init, []) =
      (⟨[0], .scaleUp⟩, [.new, ⟨.start, true, true, true⟩]) := by
    decide
  have h := (@Reachable.init 20 80 200).run [200, 200, 0, 0, 0, 0, 0]
  rw [e] at h
  exact ⟨e, List.cons_ne_nil _ _, reachable_vector_nonempty h (List.cons_ne_nil _ _)⟩

end Controller

/-! ### The pipeline of `main` with a small input -/

namespace Pipeline

variable {cfg : Config} {tf : Transformer} {input read : List Item} {s s' : Pipeline}

theorem Accounted.length_worker_le (h : Accounted tf read s) :
    s.worker_queue.contents.length ≤ read.length := by
  obtain ⟨A, hA, hs⟩ := h
  have hc := congrArg Multiset.card hs
  have hr := congrArg Multiset.card hA
  simp only [places, queued, held, tagged, Multiset.card_add, Multiset.coe_card, List.length_map,
    Multiset.card_map] at hc hr
  omega

/-- No Consumer exists, and nothing has reached `output_queue` or the Writer. -/
structure NoPool (s : Pipeline) : Prop where
  vector : s.controller.consumers = []
  table : s.consumers = []
  output : s.output_queue.contents = []
  written : s.written = []

theorem noPool_init (h : init cfg = some s) : NoPool s := by
  simp only [init, bind, Option.bind_eq_some, pure, Option.some.injEq] at h
  obtain ⟨iq, hi, wq, hw, oq, ho, rfl⟩ := h
  obtain ⟨-, rfl⟩ := TSQueue.create_some ho
  exact ⟨rfl, rfl, by simp [TSQueue.contents, TSQueue.window], rfl⟩

/-- With `main`'s constants the controller creates no Consumer while `worker_queue` holds at most
160 items. -/
theorem above_main {size : Int} (h0 : 0 ≤ size) (h : size ≤ 160) :
    above size Config.main.worker_queue_size Config.main.high_threshold = false := by
  simp only [above, Config.main, decide_eq_false_iff_not, not_lt]
  omega

theorem noPool_step {a : Actor} (hs : Sound Config.main s)
    (ha : Accounted tf (input.take s.read) s) (hp : NoPool s) (hn : input.length ≤ 160)
    (h : s.step Config.main tf input a = some s') : NoPool s' := by
  cases a with
  | reader =>
    obtain ⟨it, q, -, -, rfl⟩ := readerStep_some h
    exact ⟨hp.vector, hp.table, hp.output, hp.written⟩
  | writer =>
    obtain ⟨it, q, -, hd, -⟩ := writerStep_some h
    have := (TSQueue.dequeue_contents hs.output_wf hd).2.2
    rw [hp.output] at this
    cases this
  | producer i =>
    obtain ⟨pc, -, hm⟩ := producerStep_some h
    cases hm <;> exact ⟨hp.vector, hp.table, hp.output, hp.written⟩
  | consumer c =>
    obtain ⟨k, hk, -⟩ := consumerStep_some h
    rw [hp.table] at hk
    cases hk
  | cancel c =>
    have : s.cancelStep c = some s' := h
    rw [hs.cancelStep_eq_none] at this
    cases this
  | controller =>
    cases h
    have hsize : s.worker_queue.size ≤ 160 := by
      have := ha.length_worker_le
      have := List.length_take_le' s.read input
      rw [TSQueue.size_eq_length_contents hs.worker_wf]
      omega
    have hmax : s.worker_queue.get_max_buffersize = Config.main.worker_queue_size :=
      hs.worker_size
    have hab := above_main hs.worker_wf.size_nonneg hsize
    simp only [controllerStep, hmax, hp.table]
    exact ⟨(Controller.step_nil hp.vector hab).1, (Controller.step_nil hp.vector hab).2, hp.output,
      hp.written⟩

/-- **With at most 160 input items the pipeline never has a Consumer.**  In every reachable state
of the pipeline `main` builds, for an input of at most 160 items and under every interleaving,
the controller's `consumers` vector is empty, no Consumer has been created, and `output_queue`
and the Writer's received items are empty. -/
theorem small_input_no_consumer (hn : input.length ≤ 160)
    (h : Reachable Config.main tf input s) : NoPool s := by
  suffices Accounted tf (input.take s.read) s ∧ NoPool s from this.2
  induction h with
  | init hi => exact ⟨accounted_init hi input, noPool_init hi⟩
  | step hr hs ih =>
    have hsound := hr.sound Config.main_valid
    exact ⟨step_accounted hsound hs ih.1, noPool_step hsound ih.1 ih.2 hn hs⟩

theorem small_input_no_consumer_one_item : NoPool mainStart :=
  @small_input_no_consumer ⟨fun _ v => v, fun _ v => v⟩ [⟨1, 5, 0⟩] mainStart (by decide)
    (.init init_main)

/-! ### The controller's invariant inside the pipeline -/

theorem live_set {cs : List Consumer} {c : Nat} {k k' : Consumer} (hk : cs[c]? = some k)
    (he : k'.is_cancel = k.is_cancel) : live (cs.set c k') = live cs := by
  have hc := (List.getElem?_eq_some_iff.1 hk).1
  simp only [live, List.length_set]
  refine List.filter_congr fun i _ => ?_
  simp only [isLive, List.getElem?_set]
  by_cases hi : c = i
  · subst hi; simp [hc, hk, he]
  · simp [hi]

theorem ConsumerMove.table {c : Nat} {k : Consumer} (hm : ConsumerMove tf s c k s') :
    ∃ k', s'.consumers = s.consumers.set c k' ∧ k'.is_cancel = k.is_cancel := by
  cases hm <;> exact ⟨_, rfl, rfl⟩

theorem poolInv_step {a : Actor} (hs : Sound cfg s) (h : s.step cfg tf input a = some s')
    (hp : Controller.PoolInv (s.controller, s.consumers)) :
    Controller.PoolInv (s'.controller, s'.consumers) := by
  cases a with
  | reader =>
    obtain ⟨it, q, -, -, rfl⟩ := readerStep_some h
    exact hp
  | writer =>
    obtain ⟨it, q, -, -, rfl⟩ := writerStep_some h
    exact hp
  | producer i =>
    obtain ⟨pc, -, hm⟩ := producerStep_some h
    cases hm <;> exact hp
  | consumer c =>
    obtain ⟨k, hk, hm⟩ := consumerStep_some h
    obtain ⟨k', hcs, he⟩ := hm.table
    have hc : s'.controller = s.controller := by cases hm <;> rfl
    simpa only [Controller.PoolInv, hc, hcs, live_set hk he] using hp
  | cancel c =>
    have : s.cancelStep c = some s' := h
    rw [hs.cancelStep_eq_none] at this
    cases this
  | controller =>
    cases h
    exact Controller.poolInv_step _ hp

/-- **The controller's vector is the list of live Consumers, in the whole pipeline.**  In every
reachable state of the pipeline, between two ticks the `consumers` vector is exactly the
Consumers created and not cancelled, in creation order, and in the middle of a scale-down it is
those followed by the Consumer being cancelled: the threads of the Consumers never change which
of them are live. -/
theorem reachable_poolInv (hv : cfg.Valid) (h : Reachable cfg tf input s) :
    Controller.PoolInv (s.controller, s.consumers) := by
  induction h with
  | init hi =>
    simp only [init, bind, Option.bind_eq_some, pure, Option.some.injEq] at hi
    obtain ⟨iq, -, wq, -, oq, -, rfl⟩ := hi
    rfl
  | step hr hs ih => exact poolInv_step (hr.sound hv) hs ih

/-- At `pendingCancel`, after a scale-down, the vector is `[0]`: of the two Consumers created, the
one not cancelled. -/
theorem reachable_poolInv_pendingCancel :
    pendingCancel.consumers.length = 2 ∧ pendingCancel.controller.consumers = [0] ∧
      Controller.PoolInv (pendingCancel.controller, pendingCancel.consumers) :=
  ⟨rfl, rfl, reachable_poolInv Config.oneSlot_valid reachable_pendingCancel⟩

end Pipeline

end NthuOs

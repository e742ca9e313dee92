import NthuOs.Pipeline.Cancel
import NthuOs.Pipeline.Pool
import Mathlib.Logic.Relation

/-!
# The pipeline never deadlocks

`Pipeline.small_input_no_consumer` shows that for an input of at most 160 items the Writer never
receives anything.  This file shows the converse: for a larger input the pipeline cannot get
stuck short of its goal.  From every reachable state, whatever the threads have done so far,
some continuation of the run ends with the Writer having received all `n` items.

* `Pipeline.remaining`: the moves the items still have to make before the Writer has them all;
  a step that moves an item lowers it by one, and no step raises it.
* `Pipeline.Ready`: what the argument needs of a reachable state, on top of `Pipeline.Sound`: the
  items are accounted for, the controller's vector is the list of live Consumers and is empty
  only while no Consumer exists, no item reaches `output_queue` before the first Consumer, and a
  Consumer whose `is_cancel` is clear is still in `process`.
* `Pipeline.advances_live`, `Pipeline.advances_producer`: a live Consumer, and any producer, can
  move an item on whenever there is one before it and room after it.
* `Pipeline.Ready.advances`: from every ready state where the Writer still waits, some run moves
  an item on.
* `Pipeline.main_drain`: so, by induction on `remaining`, for `main`'s constants and every input
  of more than 160 items, some run from every reachable state ends with the Writer done.

The proof of `Ready.advances` looks for a thread that can move an item, downstream first: the
Writer; a Consumer that holds an item; a live Consumer, when `worker_queue` holds one; the
controller, which starts a new Consumer when `worker_queue` is above its high threshold; a
producer; the Reader.  When none can, every item read is in `worker_queue` or received, no
Consumer exists, so nothing is received, and `worker_queue` holds all `n` items, which is above
the high threshold: a contradiction.

What this does **not** say: that every run finishes.  A scheduler that runs only the controller,
or only threads that busy-wait on `get_size()`, makes no progress; the result is that finishing
is always still possible.

What it assumes: that each `get_size()` reads the current `size`, as the model of
`NthuOs.Pipeline.System` says.  A producer spinning on `get_size()` finds the Reader's next item
only so; compiled code that keeps one read of the unlocked `int` for the whole spin is not covered.
-/

namespace NthuOs

/-! ### Queues with an item, and with room -/

namespace TSQueue

variable {α : Type} {q : TSQueue α}

theorem size_pos (hq : q.WellFormed) (h : q.contents ≠ []) : 0 < q.size := by
  rw [size_eq_length_contents hq]
  exact_mod_cast List.length_pos.2 h

theorem exists_dequeue (hq : q.WellFormed) (h : q.contents ≠ []) :
    ∃ x q', q.dequeue = some (x, q') ∧ q.contents = x :: q'.contents := by
  obtain ⟨x, -, hd⟩ := dequeue_eq_popped hq (size_pos hq h).ne'
  exact ⟨x, _, hd, (dequeue_contents hq hd).2.2⟩

theorem exists_enqueue (hq : q.WellFormed) (h : (q.contents.length : Int) < q.buffer_size)
    (x : α) : ∃ q', q.enqueue x = some q' ∧ q'.contents = q.contents ++ [x] := by
  have hs : q.size ≠ q.buffer_size := by rw [size_eq_length_contents hq]; omega
  exact ⟨_, enqueue_eq_pushed hq hs, (enqueue_contents hq (enqueue_eq_pushed hq hs)).2.2⟩

end TSQueue

/-! ### The moves left -/

/-- The moves left to an item a producer holds: its transform, its `enqueue` to `worker_queue`,
and the four moves from there to the Writer. -/
def ProducerPc.remaining : ProducerPc → Nat
  | .transform _ => 6
  | .enqueue _ => 5
  | _ => 0

/-- The moves left to an item a Consumer holds: its transform, its `enqueue` to
`output_queue`, and the Writer's `dequeue`. -/
def ConsumerPc.remaining : ConsumerPc → Nat
  | .transform _ => 3
  | .enqueue _ => 2
  | _ => 0

/-- A Consumer whose `is_cancel` is clear has not left `process`. -/
def Consumer.Running (k : Consumer) : Prop :=
  k.is_cancel = false → k.pc ≠ .exited ∧ k.pc ≠ .cancelled

section Grows

variable {cs cs' : List Consumer}

theorem Grows.eq_nil (hg : Grows cs cs') (h : cs' = []) : cs = [] := by
  cases cs with
  | nil => rfl
  | cons k cs =>
    obtain ⟨k', hk', -⟩ := hg.old 0 k (List.getElem?_cons_zero)
    rw [h] at hk'
    cases hk'

theorem Grows.running (hg : Grows cs cs') (h : ∀ k ∈ cs, k.Running) : ∀ k ∈ cs', k.Running := by
  intro k' hk'
  obtain ⟨c, hc⟩ := List.mem_iff_getElem?.1 hk'
  cases hk : cs[c]? with
  | none => rw [hg.new c k' hk hc]; exact fun _ => ⟨nofun, nofun⟩
  | some k =>
    obtain ⟨k'', hk'', hpc, -, hcan, -⟩ := hg.old c k hk
    rw [hc] at hk''
    cases hk''
    intro hf
    rw [hpc]
    refine h k (List.getElem?_mem hk) ?_
    cases hk2 : k.is_cancel
    · rfl
    · rw [hcan hk2] at hf; cases hf

end Grows

/-- Replacing the entry `y` at `i` by `x` trades `f y` for `f x` in the sum. -/
theorem foldr_map_set_add {β : Type} (f : β → Nat) {l : List β} {i : Nat} {y : β}
    (h : l[i]? = some y) (x : β) :
    ((l.set i x).map f).foldr (· + ·) 0 + f y = (l.map f).foldr (· + ·) 0 + f x := by
  induction l generalizing i with
  | nil => simp at h
  | cons a l ih =>
    cases i with
    | zero =>
      rw [List.getElem?_cons_zero, Option.some.injEq] at h
      subst h
      simp only [List.set_cons_zero, List.map_cons, List.foldr_cons]
      omega
    | succ i =>
      rw [List.getElem?_cons_succ] at h
      have := ih h
      simp only [List.set_cons_succ, List.map_cons, List.foldr_cons]
      omega

/-- The controller never changes where a Consumer's thread is, and starts new ones at the top. -/
theorem Controller.remaining_step (low high max size : Int) (ctl : Controller)
    (cs : List Consumer) :
    (((ctl.step low high max size cs).2.map Consumer.pc).map ConsumerPc.remaining).foldr
        (· + ·) 0 = ((cs.map Consumer.pc).map ConsumerPc.remaining).foldr (· + ·) 0 := by
  rcases map_pc_step low high max size ctl cs with h | h <;> rw [h]
  simp [ConsumerPc.remaining]

namespace Pipeline

/-- One step of some thread. -/
def Next (cfg : Config) (tf : Transformer) (input : List Item) (s s' : Pipeline) : Prop :=
  ∃ a, s.step cfg tf input a = some s'

/-- The moves the items still have to make before the Writer has received all `n` of them: an
unread item has eight (the Reader's `enqueue`, a producer's `dequeue`, transform and `enqueue`, a
Consumer's `dequeue`, transform and `enqueue`, the Writer's `dequeue`), an item in
`input_queue` seven, and so on down to none for an item received. -/
def remaining (n : Nat) (s : Pipeline) : Nat :=
  8 * (n - s.read) + 7 * s.input_queue.contents.length +
    (s.producers.map ProducerPc.remaining).foldr (· + ·) 0 + 4 * s.worker_queue.contents.length +
    ((s.consumers.map Consumer.pc).map ConsumerPc.remaining).foldr (· + ·) 0 +
    s.output_queue.contents.length

variable {cfg : Config} {tf : Transformer} {input : List Item} {s s' : Pipeline} {n : Nat}

theorem remaining_setProducer {i : Nat} {pc : ProducerPc} (hp : s.producers[i]? = some pc)
    (pc' : ProducerPc) :
    remaining n (s.setProducer i pc') + pc.remaining = remaining n s + pc'.remaining := by
  have := foldr_map_set_add ProducerPc.remaining hp pc'
  simp only [remaining, setProducer_read, setProducer_input_queue, setProducer_producers,
    setProducer_worker_queue, setProducer_consumers, setProducer_output_queue]
  omega

theorem remaining_setConsumer {c : Nat} {k : Consumer} (hk : s.consumers[c]? = some k)
    (k' : Consumer) :
    remaining n (s.setConsumer c k') + k.pc.remaining = remaining n s + k'.pc.remaining := by
  have := foldr_map_set_add ConsumerPc.remaining
    (show (s.consumers.map Consumer.pc)[c]? = some k.pc by simp [hk]) k'.pc
  rw [List.map_set] at this
  simp only [remaining, setConsumer_read, setConsumer_input_queue, setConsumer_producers,
    setConsumer_worker_queue, setConsumer_consumers, setConsumer_output_queue, List.map_set]
  omega

theorem remaining_controllerStep : remaining n (s.controllerStep cfg) = remaining n s := by
  simp only [remaining, controllerStep, Controller.remaining_step]

/-! ### Runs that move an item on -/

/-- Some run from `s` moves an item on. -/
def Advances (cfg : Config) (tf : Transformer) (input : List Item) (s : Pipeline) : Prop :=
  ∃ s', Relation.ReflTransGen (Next cfg tf input) s s' ∧
    remaining input.length s' < remaining input.length s

theorem advances_of_next (h : Next cfg tf input s s')
    (hlt : remaining input.length s' < remaining input.length s) : Advances cfg tf input s :=
  ⟨s', .single h, hlt⟩

theorem Advances.of_next (ha : Advances cfg tf input s') (h : Next cfg tf input s s')
    (hle : remaining input.length s' ≤ remaining input.length s) : Advances cfg tf input s := by
  obtain ⟨t, ht, hlt⟩ := ha
  exact ⟨t, .head h ht, by omega⟩

theorem advances_writer (hs : Sound cfg s) (hn : s.written.length < input.length)
    (ho : s.output_queue.contents ≠ []) : Advances cfg tf input s := by
  obtain ⟨it, q, hd, hc⟩ := TSQueue.exists_dequeue hs.output_wf ho
  have h : s.step cfg tf input .writer =
      some { s with output_queue := q, written := s.written ++ [it] } := by
    simp [step, writerStep, hn, hd]
  refine advances_of_next ⟨_, h⟩ ?_
  simp only [remaining, hc, List.length_cons]
  omega

theorem advances_reader (hs : Sound cfg s) (hr : s.read < input.length)
    (hi : (s.input_queue.contents.length : Int) < s.input_queue.buffer_size) :
    Advances cfg tf input s := by
  obtain ⟨q, he, hc⟩ := TSQueue.exists_enqueue hs.input_wf hi input[s.read]
  have h : s.step cfg tf input .reader =
      some { s with input_queue := q, read := s.read + 1 } := by
    simp [step, readerStep, hr, he]
  refine advances_of_next ⟨_, h⟩ ?_
  simp only [remaining, hc, List.length_append, List.length_singleton]
  omega

/-! ### A Consumer's way to its next item -/

section Consumer

variable {c : Nat} {k : Consumer}

/-- A step of Consumer `c` that only moves its own program counter keeps `remaining`. -/
theorem Advances.of_consumer (hk : s.consumers[c]? = some k) {k' : Consumer}
    (h : s.step cfg tf input (.consumer c) = some (s.setConsumer c k'))
    (hrem : k'.pc.remaining = k.pc.remaining) (ha : Advances cfg tf input (s.setConsumer c k')) :
    Advances cfg tf input s :=
  ha.of_next ⟨_, h⟩ (by have := remaining_setConsumer (n := input.length) hk k'; omega)

theorem advances_at_dequeue (hs : Sound cfg s) (hk : s.consumers[c]? = some k)
    (hpc : k.pc = .dequeue) (hw : s.worker_queue.contents ≠ []) : Advances cfg tf input s := by
  obtain ⟨it, q, hd, hc⟩ := TSQueue.exists_dequeue hs.worker_wf hw
  have h : s.step cfg tf input (.consumer c) =
      some { s.setConsumer c { k with pc := .transform it } with worker_queue := q } := by
    simp [step, consumerStep, hk, hpc, hd]
  refine advances_of_next ⟨_, h⟩ ?_
  have := remaining_setConsumer (n := input.length) hk { k with pc := .transform it }
  simp only [remaining, setConsumer_read, setConsumer_input_queue, setConsumer_producers,
    setConsumer_worker_queue, setConsumer_consumers, setConsumer_output_queue, hc,
    List.length_cons] at this ⊢
  simp only [hpc, ConsumerPc.remaining] at this
  omega

theorem advances_at_check (hs : Sound cfg s) (hk : s.consumers[c]? = some k)
    (hpc : k.pc = .check) (hw : s.worker_queue.contents ≠ []) : Advances cfg tf input s := by
  have h : s.step cfg tf input (.consumer c) =
      some (s.setConsumer c { k with pc := .dequeue }) := by
    simp [step, consumerStep, hk, hpc, TSQueue.get_size, TSQueue.size_pos hs.worker_wf hw]
  exact Advances.of_consumer hk h (by rw [hpc]; rfl)
    (advances_at_dequeue (step_sound hs h) (getElem?_setConsumer_self hk _) rfl hw)

theorem advances_at_disable (hs : Sound cfg s) (hk : s.consumers[c]? = some k)
    (hpc : k.pc = .disable) (hw : s.worker_queue.contents ≠ []) : Advances cfg tf input s := by
  have h : s.step cfg tf input (.consumer c) =
      some (s.setConsumer c { k with pc := .check, cancel_enabled := false }) := by
    simp [step, consumerStep, hk, hpc]
  exact Advances.of_consumer hk h (by rw [hpc]; rfl)
    (advances_at_check (step_sound hs h) (getElem?_setConsumer_self hk _) rfl hw)

theorem advances_at_loop (hs : Sound cfg s) (hk : s.consumers[c]? = some k)
    (hpc : k.pc = .loop) (hl : k.is_cancel = false) (hw : s.worker_queue.contents ≠ []) :
    Advances cfg tf input s := by
  have h : s.step cfg tf input (.consumer c) =
      some (s.setConsumer c { k with pc := .disable }) := by
    simp [step, consumerStep, hk, hpc, hl]
  exact Advances.of_consumer hk h (by rw [hpc]; rfl)
    (advances_at_disable (step_sound hs h) (getElem?_setConsumer_self hk _) rfl hw)

theorem advances_consumer_transform {it : Item} (hk : s.consumers[c]? = some k)
    (hpc : k.pc = .transform it) : Advances cfg tf input s := by
  have h : s.step cfg tf input (.consumer c) =
      some (s.setConsumer c { k with pc := .enqueue (tf.consume it) }) := by
    simp [step, consumerStep, hk, hpc]
  refine advances_of_next ⟨_, h⟩ ?_
  have := remaining_setConsumer (n := input.length) hk { k with pc := .enqueue (tf.consume it) }
  simp only [hpc, ConsumerPc.remaining] at this
  omega

theorem advances_consumer_enqueue {it : Item} (hs : Sound cfg s) (hk : s.consumers[c]? = some k)
    (hpc : k.pc = .enqueue it)
    (ho : (s.output_queue.contents.length : Int) < s.output_queue.buffer_size) :
    Advances cfg tf input s := by
  obtain ⟨q, he, hc⟩ := TSQueue.exists_enqueue hs.output_wf ho it
  have h : s.step cfg tf input (.consumer c) =
      some { s.setConsumer c { k with pc := .enable } with output_queue := q } := by
    simp [step, consumerStep, hk, hpc, he]
  refine advances_of_next ⟨_, h⟩ ?_
  have := remaining_setConsumer (n := input.length) hk { k with pc := .enable }
  simp only [remaining, setConsumer_read, setConsumer_input_queue, setConsumer_producers,
    setConsumer_worker_queue, setConsumer_consumers, setConsumer_output_queue, hc,
    List.length_append, List.length_singleton] at this ⊢
  simp only [hpc, ConsumerPc.remaining] at this
  omega

/-- A Consumer at `start` or `enable` goes to its loop head next. -/
theorem advances_to_loop (hs : Sound cfg s) (hk : s.consumers[c]? = some k) {k' : Consumer}
    (h : s.step cfg tf input (.consumer c) = some (s.setConsumer c k'))
    (hpc : k'.pc = .loop) (hrem : k.pc.remaining = 0) (hl : k'.is_cancel = false)
    (hw : s.worker_queue.contents ≠ []) : Advances cfg tf input s :=
  Advances.of_consumer hk h (by rw [hpc, hrem]; rfl)
    (advances_at_loop (step_sound hs h) (getElem?_setConsumer_self hk _) hpc hl hw)

/-- **A live Consumer can always move an item on** while `worker_queue` holds one and
`output_queue` has room: wherever its thread is in `process`, a few steps of its own reach its
`dequeue`, its transform or its `enqueue`. -/
theorem advances_live (hs : Sound cfg s) (hk : s.consumers[c]? = some k)
    (hl : k.is_cancel = false) (hrun : k.Running) (hw : s.worker_queue.contents ≠ [])
    (ho : (s.output_queue.contents.length : Int) < s.output_queue.buffer_size) :
    Advances cfg tf input s := by
  cases hpc : k.pc with
  | start =>
    have h : s.step cfg tf input (.consumer c) = some (s.setConsumer c { k with pc := .loop }) := by
      simp [step, consumerStep, hk, hpc]
    exact advances_to_loop hs hk h rfl (by rw [hpc]; rfl) hl hw
  | enable =>
    have h : s.step cfg tf input (.consumer c) =
        some (s.setConsumer c { k with pc := .loop, cancel_enabled := true }) := by
      simp [step, consumerStep, hk, hpc]
    exact advances_to_loop hs hk h rfl (by rw [hpc]; rfl) hl hw
  | loop => exact advances_at_loop hs hk hpc hl hw
  | disable => exact advances_at_disable hs hk hpc hw
  | check => exact advances_at_check hs hk hpc hw
  | dequeue => exact advances_at_dequeue hs hk hpc hw
  | transform it => exact advances_consumer_transform hk hpc
  | enqueue it => exact advances_consumer_enqueue hs hk hpc ho
  | exited => exact absurd hpc (hrun hl).1
  | cancelled => exact absurd hpc (hrun hl).2

end Consumer

/-! ### A producer's way to its next item -/

section Producer

variable {i : Nat}

theorem advances_producer_transform {it : Item} (hp : s.producers[i]? = some (.transform it)) :
    Advances cfg tf input s := by
  have h : s.step cfg tf input (.producer i) =
      some (s.setProducer i (.enqueue (tf.produce it))) := by
    simp [step, producerStep, hp]
  refine advances_of_next ⟨_, h⟩ ?_
  have := remaining_setProducer (n := input.length) hp (.enqueue (tf.produce it))
  simp only [ProducerPc.remaining] at this
  omega

theorem advances_producer_enqueue {it : Item} (hs : Sound cfg s)
    (hp : s.producers[i]? = some (.enqueue it))
    (hw : (s.worker_queue.contents.length : Int) < s.worker_queue.buffer_size) :
    Advances cfg tf input s := by
  obtain ⟨q, he, hc⟩ := TSQueue.exists_enqueue hs.worker_wf hw it
  have h : s.step cfg tf input (.producer i) =
      some { s.setProducer i .check with worker_queue := q } := by
    simp [step, producerStep, hp, he]
  refine advances_of_next ⟨_, h⟩ ?_
  have := remaining_setProducer (n := input.length) hp .check
  simp only [remaining, setProducer_read, setProducer_input_queue, setProducer_producers,
    setProducer_worker_queue, setProducer_consumers, setProducer_output_queue, hc,
    List.length_append, List.length_singleton, ProducerPc.remaining] at this ⊢
  omega

theorem advances_producer_dequeue (hs : Sound cfg s) (hp : s.producers[i]? = some .dequeue)
    (hin : s.input_queue.contents ≠ []) : Advances cfg tf input s := by
  obtain ⟨it, q, hd, hc⟩ := TSQueue.exists_dequeue hs.input_wf hin
  have h : s.step cfg tf input (.producer i) =
      some { s.setProducer i (.transform it) with input_queue := q } := by
    simp [step, producerStep, hp, hd]
  refine advances_of_next ⟨_, h⟩ ?_
  have := remaining_setProducer (n := input.length) hp (.transform it)
  simp only [remaining, setProducer_read, setProducer_input_queue, setProducer_producers,
    setProducer_worker_queue, setProducer_consumers, setProducer_output_queue, hc,
    List.length_cons, ProducerPc.remaining] at this ⊢
  omega

/-- **A producer can always move an item on** while `input_queue` holds one and `worker_queue`
has room. -/
theorem advances_producer {pc : ProducerPc} (hs : Sound cfg s) (hp : s.producers[i]? = some pc)
    (hin : s.input_queue.contents ≠ [])
    (hw : (s.worker_queue.contents.length : Int) < s.worker_queue.buffer_size) :
    Advances cfg tf input s := by
  cases pc with
  | check =>
    have h : s.step cfg tf input (.producer i) = some (s.setProducer i .dequeue) := by
      simp [step, producerStep, hp, TSQueue.get_size, TSQueue.size_pos hs.input_wf hin]
    exact (advances_producer_dequeue (step_sound hs h)
      (List.getElem?_set_self (List.getElem?_eq_some_iff.1 hp).1) hin).of_next ⟨_, h⟩
      (Nat.add_right_cancel (remaining_setProducer hp .dequeue)).le
  | dequeue => exact advances_producer_dequeue hs hp hin
  | transform it => exact advances_producer_transform hp
  | enqueue it => exact advances_producer_enqueue hs hp hw

end Producer

/-! ### The controller's way to a new Consumer -/

section Controller

variable (hs : Sound cfg s)
  (ha : above s.worker_queue.size s.worker_queue.buffer_size cfg.high_threshold = true)
  (hw : s.worker_queue.contents ≠ [])
  (ho : (s.output_queue.contents.length : Int) < s.output_queue.buffer_size)
include hs ha hw ho

/-- At the top of its loop, the controller starts a new Consumer, which goes to its `dequeue`. -/
theorem advances_scaleUp (hpc : s.controller.pc = .scaleUp) : Advances cfg tf input s := by
  have h : s.step cfg tf input .controller = some (s.controllerStep cfg) := rfl
  have hk : (s.controllerStep cfg).consumers[s.consumers.length]? = some Consumer.new := by
    simp [controllerStep, Controller.step, hpc, TSQueue.get_size, TSQueue.get_max_buffersize,
      ha]
  exact (advances_live (step_sound hs h) hk rfl (fun _ => ⟨nofun, nofun⟩) hw ho).of_next
    ⟨_, h⟩ remaining_controllerStep.le

/-- Inside `cancel()`, the controller finishes the scale-down and returns to the top. -/
theorem advances_cancel {c : Nat} (hpc : s.controller.pc = .cancel c) :
    Advances cfg tf input s := by
  have h : s.step cfg tf input .controller = some (s.controllerStep cfg) := rfl
  exact (advances_scaleUp (step_sound hs h) ha hw ho
    (by simp [controllerStep, Controller.step, hpc])).of_next ⟨_, h⟩ remaining_controllerStep.le

/-- **While `worker_queue` is above the high threshold the controller can start a Consumer that
takes an item**, from wherever it is in its loop. -/
theorem advances_controller : Advances cfg tf input s := by
  cases hpc : s.controller.pc with
  | scaleUp => exact advances_scaleUp hs ha hw ho hpc
  | cancel c => exact advances_cancel hs ha hw ho hpc
  | scaleDown =>
    have h : s.step cfg tf input .controller = some (s.controllerStep cfg) := rfl
    have hs' := step_sound hs h
    refine Advances.of_next ?_ ⟨_, h⟩ remaining_controllerStep.le
    cases hpc' : (s.controllerStep cfg).controller.pc with
    | scaleUp => exact advances_scaleUp hs' ha hw ho hpc'
    | cancel c => exact advances_cancel hs' ha hw ho hpc'
    | scaleDown =>
      simp only [controllerStep, Controller.step, hpc] at hpc'
      split at hpc' <;> cases hpc'

end Controller

/-! ### What the argument needs of a reachable state -/


theorem ConsumerMove.running {c : Nat} {k : Consumer} (hm : ConsumerMove tf s c k s') :
    ∃ k', s'.consumers = s.consumers.set c k' ∧ k'.Running := by
  cases hm with
  | exit _ hc => exact ⟨_, rfl, fun hf => absurd (hc.symm.trans hf) Bool.noConfusion⟩
  | start | enter | disable | idle | check | dequeue | transform | enqueue | enable =>
    exact ⟨_, rfl, fun _ => ⟨nofun, nofun⟩⟩

/-- The invariant the drain argument rests on. -/
structure Ready (cfg : Config) (tf : Transformer) (input : List Item) (s : Pipeline) : Prop where
  sound : Sound cfg s
  accounted : Accounted tf (input.take s.read) s
  producers : s.producers.length = cfg.producers
  pool : Controller.PoolInv (s.controller, s.consumers)
  vector : Controller.VectorInv (s.controller, s.consumers)
  /-- Before the first Consumer, no item has reached `output_queue` or the Writer. -/
  idle : s.consumers = [] → s.output_queue.contents = [] ∧ s.written = []
  running : ∀ k ∈ s.consumers, k.Running

theorem ready_init (hv : cfg.Valid) (h : init cfg = some s) : Ready cfg tf input s := by
  have hn := noPool_init h
  have hs := sound_init hv h
  have ha : Accounted tf (input.take s.read) s := accounted_init h input
  simp only [init, bind, Option.bind_eq_some, pure, Option.some.injEq] at h
  obtain ⟨iq, -, wq, -, oq, -, rfl⟩ := h
  exact ⟨hs, ha, List.length_replicate _ _, rfl, ⟨fun h => absurd rfl h, fun _ h => nomatch h⟩,
    fun _ => ⟨hn.output, hn.written⟩, by simp⟩

theorem Ready.next (hr : Ready cfg tf input s) (h : Next cfg tf input s s') :
    Ready cfg tf input s' := by
  obtain ⟨a, h⟩ := h
  have hs := hr.sound
  suffices s'.producers.length = s.producers.length ∧
      Controller.VectorInv (s'.controller, s'.consumers) ∧
      (s'.consumers = [] → s'.output_queue.contents = [] ∧ s'.written = []) ∧
      ∀ k ∈ s'.consumers, k.Running from
    ⟨step_sound hs h, step_accounted hs h hr.accounted, this.1.trans hr.producers,
      poolInv_step hs h hr.pool, this.2.1, this.2.2.1, this.2.2.2⟩
  cases a with
  | reader =>
    obtain ⟨it, q, -, -, rfl⟩ := readerStep_some h
    exact ⟨rfl, hr.vector, hr.idle, hr.running⟩
  | writer =>
    obtain ⟨it, q, -, hd, rfl⟩ := writerStep_some h
    refine ⟨rfl, hr.vector, fun hc => ?_, hr.running⟩
    have := (TSQueue.dequeue_contents hs.output_wf hd).2.2
    rw [(hr.idle hc).1] at this
    cases this
  | producer i =>
    obtain ⟨pc, -, hm⟩ := producerStep_some h
    cases hm <;> exact ⟨by simp, hr.vector, hr.idle, hr.running⟩
  | consumer c =>
    obtain ⟨k, hk, hm⟩ := consumerStep_some h
    obtain ⟨k', hcs, hrun⟩ := hm.running
    have hctl : s'.controller = s.controller ∧ s'.producers = s.producers := by
      cases hm <;> exact ⟨rfl, rfl⟩
    have hne : s.consumers ≠ [] := fun he => by simp [he] at hk
    refine ⟨by rw [hctl.2], ?_, fun he => absurd (hcs ▸ he) (by simpa using hne), ?_⟩
    · simpa only [Controller.VectorInv, hcs, hctl.1, ne_eq, List.set_eq_nil_iff] using hr.vector
    · rw [hcs]
      exact fun k'' hk'' => (List.mem_or_eq_of_mem_set hk'').elim (hr.running _) (· ▸ hrun)
  | cancel c =>
    have : s.cancelStep c = some s' := h
    rw [hs.cancelStep_eq_none] at this
    cases this
  | controller =>
    cases h
    have hg := Controller.grows_step cfg.low_threshold cfg.high_threshold
      s.worker_queue.get_max_buffersize s.worker_queue.get_size s.controller s.consumers
    exact ⟨rfl, Controller.vectorInv_step hr.vector, fun he => hr.idle (hg.eq_nil he),
      hg.running hr.running⟩

theorem Ready.steps (hr : Ready cfg tf input s)
    (h : Relation.ReflTransGen (Next cfg tf input) s s') : Ready cfg tf input s' := by
  induction h with
  | refl => exact hr
  | tail _ hn ih => exact ih.next hn

theorem ready_of_reachable (hv : cfg.Valid) (h : Reachable cfg tf input s) :
    Ready cfg tf input s := by
  induction h with
  | init hi => exact ready_init hv hi
  | step _ hs ih => exact ih.next ⟨_, hs⟩

/-- Once a Consumer exists, some Consumer is live: the vector is never empty again, and it holds
the live Consumers, with at most the one being cancelled besides. -/
theorem Ready.exists_live (hr : Ready cfg tf input s) (h : s.consumers ≠ []) :
    ∃ (c : Nat) (k : Consumer), s.consumers[c]? = some k ∧ k.is_cancel = false := by
  obtain ⟨h₁, h₂⟩ := hr.vector
  have hp := hr.pool
  have hlive : live s.consumers ≠ [] := by
    intro hl
    simp only [Controller.PoolInv] at hp
    split at hp
    · rename_i c hc
      have := h₂ c hc
      rw [hp, hl] at this
      simp at this
    · have := h₁ h
      rw [hp, hl] at this
      simp at this
  obtain ⟨c, hc⟩ := List.exists_mem_of_ne_nil _ hlive
  have := isLive_of_mem_live hc
  cases hk : s.consumers[c]? with
  | none => simp [isLive, hk] at this
  | some k => exact ⟨c, k, hk, by simpa [isLive, hk] using this⟩

/-- The items at the six places are as many as the items read. -/
theorem Accounted.card {read : List Item} (h : Accounted tf read s) :
    s.input_queue.contents.length + (s.producers.filterMap ProducerPc.held).length +
      s.worker_queue.contents.length +
      ((s.consumers.map Consumer.pc).filterMap ConsumerPc.held).length +
      s.output_queue.contents.length + s.written.length = read.length := by
  obtain ⟨A, hA, hs⟩ := h
  have hc := congrArg Multiset.card hs
  have hr := congrArg Multiset.card hA
  simp only [places, queued, held, tagged, Multiset.card_add, Multiset.coe_card, List.length_map,
    Multiset.card_map] at hc hr
  omega

theorem Ready.length_written_le (hr : Ready cfg tf input s) : s.written.length ≤ input.length := by
  have := hr.accounted.card
  have := List.length_take_le' s.read input
  omega

/-! ### Some thread can always move an item on -/

/-- **From every ready state where the Writer still waits, some run moves an item on**, for a
configuration with a producer in which `worker_queue` is above the high threshold once it holds
`min n worker_queue_size` items. -/
theorem Ready.advances (hr : Ready cfg tf input s) (hp : 0 < cfg.producers)
    (hbig : above (min input.length cfg.worker_queue_size) cfg.worker_queue_size
      cfg.high_threshold = true)
    (hn : s.written.length < input.length) : Advances cfg tf input s := by
  have hs := hr.sound
  have hcount := hr.accounted.card
  have hbuf := hs.worker_size
  have hsize := TSQueue.size_eq_length_contents hs.worker_wf
  have htake := List.length_take_le' s.read input
  by_contra hadv
  -- the Writer, and the items the Consumers hold
  have ho : s.output_queue.contents = [] := by
    by_contra h
    exact hadv (advances_writer hs hn h)
  have hroom_out : (s.output_queue.contents.length : Int) < s.output_queue.buffer_size := by
    rw [ho]
    exact hs.output_wf.capacity_pos
  have hcons : ∀ k ∈ s.consumers, k.pc.held = none := by
    intro k hk
    obtain ⟨c, hc⟩ := List.mem_iff_getElem?.1 hk
    cases hpc : k.pc <;> simp only [ConsumerPc.held]
    · exact (hadv (advances_consumer_transform hc hpc)).elim
    · exact (hadv (advances_consumer_enqueue hs hc hpc hroom_out)).elim
  -- with an item in `worker_queue`, no Consumer exists, and the queue does not hold
  -- `min n worker_queue_size` items, or the controller would start one
  have hworker : s.worker_queue.contents ≠ [] → s.consumers = [] ∧
      s.worker_queue.size ≠ min (input.length : Int) cfg.worker_queue_size := by
    intro hw
    refine ⟨?_, fun hmin => ?_⟩
    · by_contra hne
      obtain ⟨c, k, hk, hl⟩ := hr.exists_live hne
      exact hadv (advances_live hs hk hl (hr.running k (List.getElem?_mem hk)) hw hroom_out)
    · exact hadv (advances_controller hs (by rw [hbuf, hmin]; exact hbig) hw hroom_out)
  -- so `worker_queue` has room: full, it would hold `min n worker_queue_size` items
  have hroom : (s.worker_queue.contents.length : Int) < s.worker_queue.buffer_size := by
    by_cases hw : s.worker_queue.contents = []
    · rw [hw]
      exact hs.worker_wf.capacity_pos
    · exact lt_of_le_of_ne (hsize ▸ hs.worker_wf.size_le) fun hfull => (hworker hw).2 (by omega)
  -- the producers hold nothing, `input_queue` is empty, and the whole input has been read
  have hprod : ∀ pc ∈ s.producers, pc.held = none := by
    intro pc hpc
    obtain ⟨i, hi⟩ := List.mem_iff_getElem?.1 hpc
    cases pc <;> simp only [ProducerPc.held]
    · exact (hadv (advances_producer_transform hi)).elim
    · exact (hadv (advances_producer_enqueue hs hi hroom)).elim
  have hin : s.input_queue.contents = [] := by
    by_contra h
    have h0 : 0 < s.producers.length := by rw [hr.producers]; exact hp
    exact hadv (advances_producer hs (List.getElem?_eq_getElem h0) h hroom)
  have hall : input.length ≤ s.read := by
    by_contra h
    exact hadv (advances_reader hs (by omega) (by rw [hin]; exact hs.input_wf.capacity_pos))
  -- every item read is in `worker_queue` or received
  rw [hin, ho, List.filterMap_eq_nil_iff.2 hprod,
    List.filterMap_eq_nil_iff.2 (by simpa using hcons), List.length_take,
    min_eq_right hall] at hcount
  simp only [List.length_nil, zero_add, add_zero] at hcount
  by_cases hw : s.worker_queue.contents = []
  · rw [hw, List.length_nil, zero_add] at hcount
    omega
  · obtain ⟨hc, hne⟩ := hworker hw
    rw [(hr.idle hc).2, List.length_nil, add_zero] at hcount
    have := hs.worker_wf.size_le
    exact hne (by omega)

/-- **From every ready state, some run ends with the Writer done**, under the hypotheses of
`Ready.advances`: each run that moves an item on lowers `remaining`. -/
theorem Ready.drain (hr : Ready cfg tf input s) (hp : 0 < cfg.producers)
    (hbig : above (min input.length cfg.worker_queue_size) cfg.worker_queue_size
      cfg.high_threshold = true) :
    ∃ s', Relation.ReflTransGen (Next cfg tf input) s s' ∧ s'.written.length = input.length := by
  generalize hm : remaining input.length s = m
  induction m using Nat.strong_induction_on generalizing s with
  | _ m ih =>
    by_cases hn : s.written.length < input.length
    · obtain ⟨s₁, h₁, hlt⟩ := hr.advances hp hbig hn
      obtain ⟨s₂, h₂, hd⟩ := ih _ (hm ▸ hlt) (hr.steps h₁) rfl
      exact ⟨s₂, h₁.trans h₂, hd⟩
    · exact ⟨s, .refl, le_antisymm hr.length_written_le (not_lt.1 hn)⟩

/-- Once the Writer has received `n` items, they are the items of the input, each through both
transforms. -/
theorem Ready.written_eq (hr : Ready cfg tf input s) (hd : s.written.length = input.length) :
    (s.written : Multiset Item) = ↑(input.map (Stage.consumed.value tf)) := by
  have hcount := hr.accounted.card
  rw [List.length_take] at hcount
  obtain ⟨A, hA, hs⟩ := hr.accounted
  rw [List.take_of_length_le (by omega)] at hA
  have e₁ : s.input_queue.contents = [] := List.eq_nil_of_length_eq_zero (by omega)
  have e₂ : s.producers.filterMap ProducerPc.held = [] := List.eq_nil_of_length_eq_zero (by omega)
  have e₃ : s.worker_queue.contents = [] := List.eq_nil_of_length_eq_zero (by omega)
  have e₄ : (s.consumers.map Consumer.pc).filterMap ConsumerPc.held = [] :=
    List.eq_nil_of_length_eq_zero (by omega)
  have e₅ : s.output_queue.contents = [] := List.eq_nil_of_length_eq_zero (by omega)
  have hplaces : s.places = tagged .consumed s.written := by
    simp only [places, queued, held, e₁, e₂, e₃, e₄, e₅, tagged_nil, Multiset.coe_nil, zero_add,
      add_zero]
  rw [hplaces] at hs
  have hstage : ∀ p ∈ A, p.1 = .consumed := by
    intro p hp
    have : (p.1, p.1.value tf p.2) ∈ tagged .consumed s.written := by
      rw [hs]
      exact Multiset.mem_map_of_mem _ hp
    simp only [tagged, Multiset.mem_coe, List.mem_map, Prod.mk.injEq] at this
    obtain ⟨_, _, h, -⟩ := this
    exact h.symm
  have := congrArg (Multiset.map Prod.snd) hs
  simp only [tagged, Multiset.map_coe, List.map_map, Multiset.map_map] at this
  rw [show (Prod.snd ∘ fun x => (Stage.consumed, x)) = id from rfl, List.map_id] at this
  rw [this, ← Multiset.map_coe, ← hA, Multiset.map_map]
  exact Multiset.map_congr rfl fun p hp => by simp only [Function.comp, hstage p hp]

/-- **The pipeline `main` builds never deadlocks on an input of more than 160 items.**  For every
such input and every pair of transforms, from every reachable state, whatever interleaving led
there, some continuation of the run ends with the Writer having received exactly the items of
the input, in some order, each with its key and opcode and with the value
`consumer_transform(opcode, producer_transform(opcode, val))`. -/
theorem main_drain (hn : 160 < input.length) (h : Reachable Config.main tf input s) :
    ∃ s', Relation.ReflTransGen (Next Config.main tf input) s s' ∧
      (s'.written : Multiset Item) = ↑(input.map fun it =>
        (⟨it.key, tf.consumer_transform it.opcode (tf.producer_transform it.opcode it.val),
          it.opcode⟩ : Item)) := by
  have hr := ready_of_reachable Config.main_valid h
  obtain ⟨s', hs', hd⟩ := hr.drain (by decide)
    (by simp only [above, Config.main, decide_eq_true_eq]; omega)
  exact ⟨s', hs', (hr.steps hs').written_eq hd⟩

/-- From `main`'s start with 161 items `(0, 0)`, `producer_transform` adding 1 and
`consumer_transform` doubling, some run ends with the Writer holding 161 items of value 2. -/
theorem main_drain_from_start :
    160 < (List.replicate 161 (⟨0, 0, 0⟩ : Item)).length ∧
      ∃ s', Relation.ReflTransGen (Next Config.main ⟨fun _ v => v + 1, fun _ v => v * 2⟩
          (List.replicate 161 ⟨0, 0, 0⟩)) mainStart s' ∧
        (s'.written : Multiset Item) = ↑(List.replicate 161 (⟨0, 2, 0⟩ : Item)) := by
  refine ⟨by simp, ?_⟩
  obtain ⟨s', h₁, h₂⟩ := @main_drain ⟨fun _ v => v + 1, fun _ v => v * 2⟩
    (List.replicate 161 ⟨0, 0, 0⟩) mainStart (by simp) (.init init_main)
  exact ⟨s', h₁, by rw [h₂, List.map_replicate]; rfl⟩

end Pipeline

end NthuOs

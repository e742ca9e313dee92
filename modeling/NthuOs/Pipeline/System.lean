import NthuOs.Pipeline.Controller

/-!
# The pipeline `main` builds

`main` creates `input_queue`, `worker_queue` and `output_queue`, a Reader, a Writer, four
Producers and a ConsumerController, and starts them all.  A `Pipeline` is the state of all these
threads together; `Pipeline.step` lets one of them take one step, and `Pipeline.Reachable` closes
the initial state under every interleaving of steps.

Each `enqueue` and `dequeue` is one atomic step (`TSQueue.enqueue`, `TSQueue.dequeue`), enabled
only when its wait loop would exit.  `get_size()` is an unlocked read and is a step of its own,
which reads the current `size`: the model assumes the sequentially consistent reading.  `size` is
a plain `int`, so in C++ that read is a data race with the locked writes; a compiler may keep the
value of one read for a whole loop that spins on it, as `Producer::process` does, and the results
on the pipeline do not cover such code.
A pthread cancellation request acts only when the target thread is blocked in
`pthread_cond_wait` (the only cancellation point `Consumer::process` reaches) with cancellation
enabled; it then ends the thread where it is.

`reader.hpp` and `writer.hpp` are not among the sources.  The Reader and the Writer are modelled
from the spec as the simple loops it describes: the Reader enqueues the `n` items of its input in
order, the Writer dequeues until it has received `n` items.

`ProducerMove` and `ConsumerMove` list what one step of a producer or a consumer can do; the
invariants of the later files are proved from them and never unfold the step functions.

`Pipeline.run` takes the steps of a list of threads in order; `Pipeline.reachable_of_run` makes
its end reachable.  `Pipeline.pendingCancel` is a state with a Consumer being cancelled, reached
so, at which the later results are tried.  `Pipeline.cancel_after_delete` is a run in which the
controller's `pthread_cancel` comes after the Consumer's thread has run `delete consumer`.
-/

namespace NthuOs

/-- The constants `main` builds the pipeline with. -/
structure Config where
  reader_queue_size : Int
  worker_queue_size : Int
  writer_queue_size : Int
  low_threshold : Int
  high_threshold : Int
  producers : Nat
  deriving DecidableEq, Repr

/-- `READER_QUEUE_SIZE`, `WORKER_QUEUE_SIZE`, `WRITER_QUEUE_SIZE` (200, 200, 4000), the
controller's thresholds (20 and 80 percent) and the four producers of `main`. -/
def Config.main : Config := ⟨200, 200, 4000, 20, 80, 4⟩

/-- Queues of one slot, thresholds of 50 percent and one producer: the controller scales up
whenever `worker_queue` holds its item and down whenever it is empty, so a few steps go through
every phase of a scale-down. -/
def Config.oneSlot : Config := ⟨1, 1, 1, 50, 50, 1⟩

/-- The state of every thread of the pipeline and of the queues between them. -/
structure Pipeline where
  input_queue : TSQueue Item
  worker_queue : TSQueue Item
  output_queue : TSQueue Item
  /-- The number of items the Reader has enqueued, from the start of its input. -/
  read : Nat
  /-- The items the Writer has dequeued, in order. -/
  written : List Item
  producers : List ProducerPc
  /-- Every Consumer the controller has created, in creation order. -/
  consumers : List Consumer
  controller : Controller
  deriving DecidableEq, Repr

/-- The thread that takes a step. -/
inductive Actor where
  | reader
  | writer
  | producer (i : Nat)
  | consumer (c : Nat)
  /-- The pending cancellation request of Consumer `c`'s thread acts. -/
  | cancel (c : Nat)
  | controller
  deriving DecidableEq, Repr

namespace Pipeline

/-- `main` before any thread has run. -/
def init (cfg : Config) : Option Pipeline := do
  let input_queue ← TSQueue.create cfg.reader_queue_size
  let worker_queue ← TSQueue.create cfg.worker_queue_size
  let output_queue ← TSQueue.create cfg.writer_queue_size
  pure ⟨input_queue, worker_queue, output_queue, 0, [], List.replicate cfg.producers .check, [],
    Controller.init⟩

/-- The state `init Config.main` builds: three empty queues of 200, 200 and 4000 slots, four
producers at the top of their loop, and the controller with an empty vector. -/
def mainStart : Pipeline :=
  ⟨⟨200, List.replicate 200 none, 0, 0, -1⟩, ⟨200, List.replicate 200 none, 0, 0, -1⟩,
    ⟨4000, List.replicate 4000 none, 0, 0, -1⟩, 0, [], List.replicate 4 .check, [], Controller.init⟩

theorem init_main : init Config.main = some mainStart := rfl

/-- Producer `i` moves to `pc`. -/
def setProducer (s : Pipeline) (i : Nat) (pc : ProducerPc) : Pipeline :=
  { s with producers := s.producers.set i pc }

/-- Consumer `c` becomes `k`. -/
def setConsumer (s : Pipeline) (c : Nat) (k : Consumer) : Pipeline :=
  { s with consumers := s.consumers.set c k }

/-- Modelled from the spec: the Reader enqueues the items of its input, in order, until it has
enqueued all `n` of them. -/
def readerStep (input : List Item) (s : Pipeline) : Option Pipeline :=
  match input[s.read]? with
  | some it =>
    (s.input_queue.enqueue it).map fun q => { s with input_queue := q, read := s.read + 1 }
  | none => none

/-- Modelled from the spec: the Writer dequeues items from `output_queue` until it has received
`n` of them. -/
def writerStep (n : Nat) (s : Pipeline) : Option Pipeline :=
  if s.written.length < n then
    s.output_queue.dequeue.map fun (it, q) =>
      { s with output_queue := q, written := s.written ++ [it] }
  else none

/-- One step of Producer `i` in `Producer::process`. -/
def producerStep (tf : Transformer) (s : Pipeline) (i : Nat) : Option Pipeline :=
  match s.producers[i]? with
  | some .check => some (if 0 < s.input_queue.get_size then s.setProducer i .dequeue else s)
  | some .dequeue =>
    s.input_queue.dequeue.map fun (it, q) =>
      { s.setProducer i (.transform it) with input_queue := q }
  | some (.transform it) => some (s.setProducer i (.enqueue (tf.produce it)))
  | some (.enqueue it) =>
    (s.worker_queue.enqueue it).map fun q => { s.setProducer i .check with worker_queue := q }
  | none => none

/-- One step of Consumer `c` in `Consumer::process`. -/
def consumerStep (tf : Transformer) (s : Pipeline) (c : Nat) : Option Pipeline :=
  match s.consumers[c]? with
  | none => none
  | some k =>
    match k.pc with
    | .start => some (s.setConsumer c { k with pc := .loop })
    | .loop => some (s.setConsumer c { k with pc := if k.is_cancel then .exited else .disable })
    | .disable => some (s.setConsumer c { k with pc := .check, cancel_enabled := false })
    | .check =>
      some (s.setConsumer c
        { k with pc := if 0 < s.worker_queue.get_size then .dequeue else .enable })
    | .dequeue =>
      s.worker_queue.dequeue.map fun (it, q) =>
        { s.setConsumer c { k with pc := .transform it } with worker_queue := q }
    | .transform it => some (s.setConsumer c { k with pc := .enqueue (tf.consume it) })
    | .enqueue it =>
      (s.output_queue.enqueue it).map fun q =>
        { s.setConsumer c { k with pc := .enable } with output_queue := q }
    | .enable => some (s.setConsumer c { k with pc := .loop, cancel_enabled := true })
    | .exited => none
    | .cancelled => none

/-- The thread of `k` is blocked in `pthread_cond_wait` inside `dequeue` or `enqueue`. -/
def blockedInWait (s : Pipeline) (k : Consumer) : Bool :=
  match k.pc with
  | .dequeue => decide (s.worker_queue.size = 0)
  | .enqueue _ => decide (s.output_queue.size = s.output_queue.buffer_size)
  | _ => false

/-- A pending `pthread_cancel` acts on Consumer `c`'s thread: only with cancellation enabled and at
a cancellation point; the thread ends there. -/
def cancelStep (s : Pipeline) (c : Nat) : Option Pipeline :=
  match s.consumers[c]? with
  | some k =>
    if k.cancel_pending ∧ k.cancel_enabled ∧ s.blockedInWait k then
      some (s.setConsumer c { k with pc := .cancelled })
    else none
  | none => none

/-- One step of the controller, reading the current size of `worker_queue`. -/
def controllerStep (cfg : Config) (s : Pipeline) : Pipeline :=
  let w := s.controller.step cfg.low_threshold cfg.high_threshold
    s.worker_queue.get_max_buffersize s.worker_queue.get_size s.consumers
  { s with controller := w.1, consumers := w.2 }

/-- One step of one thread; `none` when that thread cannot move. -/
def step (cfg : Config) (tf : Transformer) (input : List Item) (s : Pipeline) :
    Actor → Option Pipeline
  | .reader => s.readerStep input
  | .writer => s.writerStep input.length
  | .producer i => s.producerStep tf i
  | .consumer c => s.consumerStep tf c
  | .cancel c => s.cancelStep c
  | .controller => some (s.controllerStep cfg)

/-- The states of the pipeline under every interleaving, for the Reader's `input`. -/
inductive Reachable (cfg : Config) (tf : Transformer) (input : List Item) : Pipeline → Prop
  | init {s : Pipeline} : init cfg = some s → Reachable cfg tf input s
  | step {s s' : Pipeline} {a : Actor} :
      Reachable cfg tf input s → s.step cfg tf input a = some s' → Reachable cfg tf input s'

/-! ### Field lemmas of the two setters -/

section Setters

variable (s : Pipeline) (i : Nat) (pc : ProducerPc) (k : Consumer)

@[simp] theorem setProducer_input_queue : (s.setProducer i pc).input_queue = s.input_queue := rfl
@[simp] theorem setProducer_worker_queue : (s.setProducer i pc).worker_queue = s.worker_queue := rfl
@[simp] theorem setProducer_output_queue : (s.setProducer i pc).output_queue = s.output_queue := rfl
@[simp] theorem setProducer_read : (s.setProducer i pc).read = s.read := rfl
@[simp] theorem setProducer_written : (s.setProducer i pc).written = s.written := rfl
@[simp] theorem setProducer_producers : (s.setProducer i pc).producers = s.producers.set i pc := rfl
@[simp] theorem setProducer_consumers : (s.setProducer i pc).consumers = s.consumers := rfl
@[simp] theorem setProducer_controller : (s.setProducer i pc).controller = s.controller := rfl
@[simp] theorem setConsumer_input_queue : (s.setConsumer i k).input_queue = s.input_queue := rfl
@[simp] theorem setConsumer_worker_queue : (s.setConsumer i k).worker_queue = s.worker_queue := rfl
@[simp] theorem setConsumer_output_queue : (s.setConsumer i k).output_queue = s.output_queue := rfl
@[simp] theorem setConsumer_read : (s.setConsumer i k).read = s.read := rfl
@[simp] theorem setConsumer_written : (s.setConsumer i k).written = s.written := rfl
@[simp] theorem setConsumer_producers : (s.setConsumer i k).producers = s.producers := rfl
@[simp] theorem setConsumer_consumers : (s.setConsumer i k).consumers = s.consumers.set i k := rfl
@[simp] theorem setConsumer_controller : (s.setConsumer i k).controller = s.controller := rfl

end Setters

/-! ### What one step can do -/

/-- The steps of Producer `i` at `pc`. -/
inductive ProducerMove (tf : Transformer) (s : Pipeline) (i : Nat) : ProducerPc → Pipeline → Prop
  | spin : ¬ 0 < s.input_queue.size → ProducerMove tf s i .check s
  | check : 0 < s.input_queue.size → ProducerMove tf s i .check (s.setProducer i .dequeue)
  | dequeue {it : Item} {q : TSQueue Item} : s.input_queue.dequeue = some (it, q) →
      ProducerMove tf s i .dequeue { s.setProducer i (.transform it) with input_queue := q }
  | transform (it : Item) :
      ProducerMove tf s i (.transform it) (s.setProducer i (.enqueue (tf.produce it)))
  | enqueue {it : Item} {q : TSQueue Item} : s.worker_queue.enqueue it = some q →
      ProducerMove tf s i (.enqueue it) { s.setProducer i .check with worker_queue := q }

/-- The steps of Consumer `c`, which is `k`. -/
inductive ConsumerMove (tf : Transformer) (s : Pipeline) (c : Nat) (k : Consumer) :
    Pipeline → Prop
  | start : k.pc = .start → ConsumerMove tf s c k (s.setConsumer c { k with pc := .loop })
  | exit : k.pc = .loop → k.is_cancel = true →
      ConsumerMove tf s c k (s.setConsumer c { k with pc := .exited })
  | enter : k.pc = .loop → k.is_cancel = false →
      ConsumerMove tf s c k (s.setConsumer c { k with pc := .disable })
  | disable : k.pc = .disable →
      ConsumerMove tf s c k (s.setConsumer c { k with pc := .check, cancel_enabled := false })
  | idle : k.pc = .check → ¬ 0 < s.worker_queue.size →
      ConsumerMove tf s c k (s.setConsumer c { k with pc := .enable })
  | check : k.pc = .check → 0 < s.worker_queue.size →
      ConsumerMove tf s c k (s.setConsumer c { k with pc := .dequeue })
  | dequeue {it : Item} {q : TSQueue Item} : k.pc = .dequeue →
      s.worker_queue.dequeue = some (it, q) →
      ConsumerMove tf s c k
        { s.setConsumer c { k with pc := .transform it } with worker_queue := q }
  | transform {it : Item} : k.pc = .transform it →
      ConsumerMove tf s c k (s.setConsumer c { k with pc := .enqueue (tf.consume it) })
  | enqueue {it : Item} {q : TSQueue Item} : k.pc = .enqueue it →
      s.output_queue.enqueue it = some q →
      ConsumerMove tf s c k { s.setConsumer c { k with pc := .enable } with output_queue := q }
  | enable : k.pc = .enable →
      ConsumerMove tf s c k (s.setConsumer c { k with pc := .loop, cancel_enabled := true })

variable {cfg : Config} {tf : Transformer} {input : List Item} {s s' : Pipeline}

theorem producerStep_some {i : Nat} (h : s.producerStep tf i = some s') :
    ∃ pc, s.producers[i]? = some pc ∧ ProducerMove tf s i pc s' := by
  unfold producerStep at h
  split at h
  · rename_i hp
    refine ⟨_, hp, ?_⟩
    by_cases hs : 0 < s.input_queue.get_size
    · rw [if_pos hs] at h; cases h; exact .check hs
    · rw [if_neg hs] at h; cases h; exact .spin hs
  · rename_i hp
    simp only [Option.map_eq_some'] at h
    obtain ⟨⟨it, q⟩, hd, rfl⟩ := h
    exact ⟨_, hp, .dequeue hd⟩
  · rename_i it hp; cases h; exact ⟨_, hp, .transform it⟩
  · rename_i it hp
    simp only [Option.map_eq_some'] at h
    obtain ⟨q, he, rfl⟩ := h
    exact ⟨_, hp, .enqueue he⟩
  · cases h

theorem consumerStep_some {c : Nat} (h : s.consumerStep tf c = some s') :
    ∃ k, s.consumers[c]? = some k ∧ ConsumerMove tf s c k s' := by
  unfold consumerStep at h
  split at h
  · cases h
  · rename_i k hk
    refine ⟨k, hk, ?_⟩
    split at h
    · rename_i hpc; cases h; exact .start hpc
    · rename_i hpc
      by_cases hc : k.is_cancel = true
      · rw [if_pos hc] at h; cases h; exact .exit hpc hc
      · rw [if_neg hc] at h; cases h; exact .enter hpc (by simpa using hc)
    · rename_i hpc; cases h; exact .disable hpc
    · rename_i hpc
      by_cases hs : 0 < s.worker_queue.get_size
      · simp only [hs, ↓reduceIte] at h; cases h; exact .check hpc hs
      · simp only [hs, ↓reduceIte] at h; cases h; exact .idle hpc hs
    · rename_i hpc
      simp only [Option.map_eq_some'] at h
      obtain ⟨⟨it, q⟩, hd, rfl⟩ := h
      exact .dequeue hpc hd
    · rename_i it hpc; cases h; exact .transform hpc
    · rename_i it hpc
      simp only [Option.map_eq_some'] at h
      obtain ⟨q, he, rfl⟩ := h
      exact .enqueue hpc he
    · rename_i hpc; cases h; exact .enable hpc
    · cases h
    · cases h

theorem readerStep_some (h : s.readerStep input = some s') :
    ∃ it q, input[s.read]? = some it ∧ s.input_queue.enqueue it = some q ∧
      s' = { s with input_queue := q, read := s.read + 1 } := by
  unfold readerStep at h
  split at h
  · rename_i it hit
    simp only [Option.map_eq_some'] at h
    obtain ⟨q, he, rfl⟩ := h
    exact ⟨it, q, hit, he, rfl⟩
  · cases h

theorem writerStep_some {n : Nat} (h : s.writerStep n = some s') :
    ∃ it q, s.written.length < n ∧ s.output_queue.dequeue = some (it, q) ∧
      s' = { s with output_queue := q, written := s.written ++ [it] } := by
  unfold writerStep at h
  split at h
  · rename_i hn
    simp only [Option.map_eq_some'] at h
    obtain ⟨⟨it, q⟩, hd, rfl⟩ := h
    exact ⟨it, q, hn, hd, rfl⟩
  · cases h

theorem cancelStep_some {c : Nat} (h : s.cancelStep c = some s') :
    ∃ k, s.consumers[c]? = some k ∧ k.cancel_pending = true ∧ k.cancel_enabled = true ∧
      s.blockedInWait k = true ∧ s' = s.setConsumer c { k with pc := .cancelled } := by
  unfold cancelStep at h
  split at h
  · rename_i k hk
    split at h
    · rename_i hc; cases h; exact ⟨k, hk, hc.1, hc.2.1, hc.2.2, rfl⟩
    · cases h
  · cases h

/-! ### Runs -/

/-- The steps of the threads `as`, in order, from `s`; `none` at the first that cannot be
taken. -/
def run (cfg : Config) (tf : Transformer) (input : List Item) : Pipeline → List Actor →
    Option Pipeline
  | s, [] => some s
  | s, a :: as => (s.step cfg tf input a).bind fun s' => run cfg tf input s' as

theorem reachable_of_run (h : Reachable cfg tf input s) {as : List Actor}
    (hr : run cfg tf input s as = some s') : Reachable cfg tf input s' := by
  induction as generalizing s with
  | nil => cases hr; exact h
  | cons a as ih =>
    obtain ⟨s₁, h₁, hr⟩ := Option.bind_eq_some.1 hr
    exact ih (h.step h₁) hr

theorem reachable_of_init_run (as : List Actor)
    (hr : (init cfg).bind (run cfg tf input · as) = some s') : Reachable cfg tf input s' := by
  obtain ⟨s, hi, hr⟩ := Option.bind_eq_some.1 hr
  exact reachable_of_run (.init hi) hr

/-- With `Config.oneSlot` and the items `(1, 10)`, `(2, 20)`, `(3, 30)`: the first item goes
through the producer to `worker_queue`, and the Reader enqueues the second; the controller starts
Consumers 0 and 1, which both pass their `get_size()` test; Consumer 0 takes the item, so the
controller scales down, cancelling Consumer 1, now blocked in its `dequeue`; Consumer 0 passes the
item on to the Writer, the producer takes the second item and the Reader enqueues the third. -/
def pendingCancelRun : List Actor :=
  [.reader, .producer 0, .producer 0, .producer 0, .producer 0, .reader, .controller, .controller,
    .consumer 0, .consumer 0, .consumer 0, .consumer 0, .consumer 1, .consumer 1, .consumer 1,
    .consumer 1, .consumer 0, .controller, .controller, .controller, .consumer 0, .consumer 0,
    .writer, .producer 0, .producer 0, .producer 0, .reader]

/-- Where `pendingCancelRun` ends, with `producer_transform` adding 1 and `consumer_transform`
doubling: an item at each stage (the third in `input_queue`, the second through
`producer_transform` in the producer's hands, the first through both transforms received by the
Writer), and Consumer 1 blocked in `pthread_cond_wait` inside its `dequeue` with `is_cancel` set, a
pending `pthread_cancel` and cancellation disabled. -/
def pendingCancel : Pipeline where
  input_queue := ⟨1, [some ⟨3, 30, 0⟩], 1, 0, 0⟩
  worker_queue := ⟨1, [some ⟨1, 11, 0⟩], 0, 0, 0⟩
  output_queue := ⟨1, [some ⟨1, 22, 0⟩], 0, 0, 0⟩
  read := 3
  written := [⟨1, 22, 0⟩]
  producers := [.enqueue ⟨2, 21, 0⟩]
  consumers := [⟨.enable, false, false, false⟩, ⟨.dequeue, true, false, true⟩]
  controller := ⟨[0], .scaleUp⟩

theorem reachable_pendingCancel :
    Reachable Config.oneSlot ⟨fun _ v => v + 1, fun _ v => v * 2⟩
      [⟨1, 10, 0⟩, ⟨2, 20, 0⟩, ⟨3, 30, 0⟩] pendingCancel :=
  reachable_of_init_run pendingCancelRun (by decide)

/-- **`pthread_cancel` on a deleted Consumer.**  `Consumer::cancel` sets `is_cancel` before it
calls `pthread_cancel(this->t)`.  In between, the Consumer's thread can test `is_cancel` at its
loop head and run `delete consumer`; `pthread_cancel` then reads `t` from freed memory.  With
`Config.oneSlot` and one item, the controller starts two Consumers, Consumer 0 takes the item and
the controller cancels Consumer 1, whose thread exits before the `pthread_cancel`. -/
theorem cancel_after_delete :
    ∃ s, Reachable Config.oneSlot ⟨fun _ v => v + 1, fun _ v => v * 2⟩ [⟨1, 10, 0⟩] s ∧
      s.controller.pc = .cancel 1 ∧ s.consumers[1]?.map Consumer.pc = some .exited := by
  have h : ((init Config.oneSlot).bind (run Config.oneSlot ⟨fun _ v => v + 1, fun _ v => v * 2⟩
      [⟨1, 10, 0⟩] · [.reader, .producer 0, .producer 0, .producer 0, .producer 0, .controller,
        .controller, .consumer 0, .consumer 0, .consumer 0, .consumer 0, .consumer 0, .controller,
        .controller, .consumer 1, .consumer 1])).map
      (fun s => (s.controller.pc, s.consumers[1]?.map Consumer.pc)) =
        some (.cancel 1, some .exited) := by
    decide
  obtain ⟨s, hs, he⟩ := Option.map_eq_some'.1 h
  simp only [Prod.mk.injEq] at he
  exact ⟨s, reachable_of_init_run _ hs, he⟩

end Pipeline

end NthuOs

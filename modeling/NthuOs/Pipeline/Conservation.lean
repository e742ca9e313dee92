import NthuOs.Pipeline.Invariant
import Mathlib.Data.Multiset.Basic
import Mathlib.Tactic.Abel

/-!
# No item is lost, duplicated or altered

Every item of the pipeline is at one of six places: `input_queue`, held by a producer between
its `dequeue` and its `enqueue`, `worker_queue`, held by a consumer between its `dequeue` and its
`enqueue`, `output_queue`, or the Writer's received items.  `Pipeline.places` is the multiset of
all of them, each tagged with its `Stage`: how many of the two transforms it has been through,
which the place and, for a thread, its program counter determine.

`Pipeline.Accounted tf read s` says that the items the Reader has enqueued (`read`) and the items
of `s` correspond one to one: there is a multiset `A` of stages and original items whose items
are `read` and whose images under `Stage.value` are `places s`.  So each item read is at exactly
one place, with its key and opcode, and with the value its stage gives it; and there is no other
item.  `Stage.value` states that value with `producer_transform` and `consumer_transform`
themselves; `Stage.value_produced` and `Stage.value_consumed` say that the `new Item` each thread
builds has it.

Each step of a thread leaves `places` as it is, adds a `.read` item (the Reader), or moves one
item on by a transform (a producer's or a consumer's transform step).  A cancellation request
could drop an item a consumer holds, but it never acts (`Pipeline.Sound.cancelStep_eq_none`).
`Pipeline.reachable_accounted` is the result for every reachable state.
-/

namespace NthuOs

/-! ### Multisets of a list under `set` -/

section FilterMap

variable {β γ : Type} (f : β → Option γ)

theorem coe_filterMap_cons (a : β) (l : List β) :
    (((a :: l).filterMap f : List γ) : Multiset γ) =
      ((f a).toList : Multiset γ) + (l.filterMap f : Multiset γ) := by
  cases h : f a <;> simp [List.filterMap_cons, h]

/-- Replacing the entry `y` at `i` by `x` trades `f y` for `f x`. -/
theorem filterMap_set_add {l : List β} {i : Nat} {y : β} (h : l[i]? = some y) (x : β) :
    (((l.set i x).filterMap f : List γ) : Multiset γ) + ((f y).toList : Multiset γ) =
      (l.filterMap f : Multiset γ) + ((f x).toList : Multiset γ) := by
  induction l generalizing i with
  | nil => simp at h
  | cons a l ih =>
    cases i with
    | zero =>
      rw [List.getElem?_cons_zero, Option.some.injEq] at h
      subst h
      simp only [List.set_cons_zero, coe_filterMap_cons]
      abel
    | succ i =>
      rw [List.getElem?_cons_succ] at h
      simp only [List.set_cons_succ, coe_filterMap_cons, add_assoc, ih h]

end FilterMap

/-! ### Stages and the items each thread holds -/

/-- How far down the pipeline an item has gone. -/
inductive Stage where
  /-- Read from the input, not yet through `producer_transform`. -/
  | read
  /-- Through `producer_transform`, not yet through `consumer_transform`. -/
  | produced
  /-- Through both transforms. -/
  | consumed
  deriving DecidableEq, Repr

/-- The item read as `it` once it has reached stage `k`: its key and opcode, and its value `v`,
`producer_transform(opcode, v)` or `consumer_transform(opcode, producer_transform(opcode, v))`. -/
def Stage.value (tf : Transformer) : Stage → Item → Item
  | .read, it => it
  | .produced, it => ⟨it.key, tf.producer_transform it.opcode it.val, it.opcode⟩
  | .consumed, it =>
    ⟨it.key, tf.consumer_transform it.opcode (tf.producer_transform it.opcode it.val), it.opcode⟩

/-- The `new Item` of `Producer::process` takes an item from stage `read` to `produced`. -/
theorem Stage.value_produced (tf : Transformer) (it : Item) :
    Stage.produced.value tf it = tf.produce (Stage.read.value tf it) := rfl

/-- The `new Item` of `Consumer::process` takes an item from stage `produced` to `consumed`. -/
theorem Stage.value_consumed (tf : Transformer) (it : Item) :
    Stage.consumed.value tf it = tf.consume (Stage.produced.value tf it) := rfl

@[simp] theorem Stage.value_key (tf : Transformer) (k : Stage) (it : Item) :
    (k.value tf it).key = it.key := by
  cases k <;> rfl

@[simp] theorem Stage.value_opcode (tf : Transformer) (k : Stage) (it : Item) :
    (k.value tf it).opcode = it.opcode := by
  cases k <;> rfl

/-- The item a producer holds, with its stage: `transItem` before the transform, `temp` after. -/
def ProducerPc.held : ProducerPc → Option (Stage × Item)
  | .transform it => some (.read, it)
  | .enqueue it => some (.produced, it)
  | _ => none

/-- The item a consumer holds, with its stage: `TransItem` before the transform, `temp` after. -/
def ConsumerPc.held : ConsumerPc → Option (Stage × Item)
  | .transform it => some (.produced, it)
  | .enqueue it => some (.consumed, it)
  | _ => none

/-- The items of `l`, all at stage `k`. -/
def tagged (k : Stage) (l : List Item) : Multiset (Stage × Item) := ↑(l.map ((k, ·)))

@[simp] theorem tagged_nil (k : Stage) : tagged k [] = 0 := rfl

theorem tagged_cons (k : Stage) (it : Item) (l : List Item) :
    tagged k (it :: l) = {(k, it)} + tagged k l := by
  simp [tagged]

theorem tagged_append_singleton (k : Stage) (it : Item) (l : List Item) :
    tagged k (l ++ [it]) = tagged k l + {(k, it)} := by
  simp [tagged, ← Multiset.coe_add]

/-- The controller only sets flags and appends Consumers at `start`, which hold no item. -/
theorem Controller.held_step (low high max size : Int) (ctl : Controller) (cs : List Consumer) :
    ((ctl.step low high max size cs).2.map Consumer.pc).filterMap ConsumerPc.held =
      (cs.map Consumer.pc).filterMap ConsumerPc.held := by
  rcases map_pc_step low high max size ctl cs with h | h <;> rw [h]
  simp [ConsumerPc.held]

/-- The three queues of the pipeline. -/
inductive QueueName where
  | input
  | worker
  | output
  deriving DecidableEq, Repr

/-- The stage of the items in each queue. -/
def QueueName.stage : QueueName → Stage
  | .input => .read
  | .worker => .produced
  | .output => .consumed

namespace Pipeline

/-- The queue `n` of `s`. -/
def queue (s : Pipeline) : QueueName → TSQueue Item
  | .input => s.input_queue
  | .worker => s.worker_queue
  | .output => s.output_queue

/-- `s` with its queue `n` replaced by `q`. -/
def setQueue (s : Pipeline) : QueueName → TSQueue Item → Pipeline
  | .input, q => { s with input_queue := q }
  | .worker, q => { s with worker_queue := q }
  | .output, q => { s with output_queue := q }

/-- Every item in the queues and the Writer's list, tagged with its stage. -/
def queued (s : Pipeline) : Multiset (Stage × Item) :=
  tagged .read s.input_queue.contents + tagged .produced s.worker_queue.contents +
    tagged .consumed s.output_queue.contents + tagged .consumed s.written

/-- Every item a producer or a consumer holds, tagged with its stage. -/
def held (s : Pipeline) : Multiset (Stage × Item) :=
  ↑(s.producers.filterMap ProducerPc.held) +
    ↑((s.consumers.map Consumer.pc).filterMap ConsumerPc.held)

/-- Every item of the pipeline, tagged with its stage. -/
def places (s : Pipeline) : Multiset (Stage × Item) := s.queued + s.held

/-- The items of `s` are the items of `read`, one to one, each with the value of its stage. -/
def Accounted (tf : Transformer) (read : List Item) (s : Pipeline) : Prop :=
  ∃ A : Multiset (Stage × Item), A.map Prod.snd = ↑read ∧
    s.places = A.map fun p => (p.1, p.1.value tf p.2)

/-! ### How a step moves the items -/

section Places

variable {cfg : Config} {s : Pipeline} {it : Item} {q : TSQueue Item}

theorem places_setProducer {i : Nat} {pc : ProducerPc} (hp : s.producers[i]? = some pc)
    (pc' : ProducerPc) :
    (s.setProducer i pc').places + ↑pc.held.toList = s.places + ↑pc'.held.toList := by
  have hq : (s.setProducer i pc').queued = s.queued := rfl
  simp only [places, held, hq, setProducer_producers, setProducer_consumers]
  calc _ = s.queued + ↑((s.consumers.map Consumer.pc).filterMap ConsumerPc.held) +
          (↑((s.producers.set i pc').filterMap ProducerPc.held) + ↑pc.held.toList) := by abel
    _ = _ := by rw [filterMap_set_add _ hp]; abel

theorem places_setConsumer {c : Nat} {k : Consumer} (hk : s.consumers[c]? = some k)
    (k' : Consumer) :
    (s.setConsumer c k').places + ↑k.pc.held.toList = s.places + ↑k'.pc.held.toList := by
  have hk' : (s.consumers.map Consumer.pc)[c]? = some k.pc := by simp [hk]
  have hq : (s.setConsumer c k').queued = s.queued := rfl
  simp only [places, held, hq, setConsumer_producers, setConsumer_consumers, List.map_set,
    add_assoc, filterMap_set_add _ hk']

theorem places_setConsumer_of_held {c : Nat} {k k' : Consumer} (hk : s.consumers[c]? = some k)
    (h : k'.pc.held = k.pc.held) : (s.setConsumer c k').places = s.places := by
  simpa [h] using places_setConsumer hk k'

/-- Replacing a queue trades its items for the items of the new one, at the queue's stage. -/
theorem places_setQueue (n : QueueName) (q : TSQueue Item) :
    (s.setQueue n q).places + tagged n.stage (s.queue n).contents =
      s.places + tagged n.stage q.contents := by
  cases n <;> simp only [places, queued, held, setQueue, queue, QueueName.stage] <;> abel

/-- An `enqueue` adds its item, at the queue's stage. -/
theorem places_enqueue (n : QueueName) (hw : (s.queue n).WellFormed)
    (he : (s.queue n).enqueue it = some q) :
    (s.setQueue n q).places = s.places + {(n.stage, it)} := by
  refine add_right_cancel (b := tagged n.stage (s.queue n).contents) ?_
  rw [places_setQueue, (TSQueue.enqueue_contents hw he).2.2, tagged_append_singleton]
  abel

/-- A `dequeue` removes the item it returns, at the queue's stage. -/
theorem places_dequeue (n : QueueName) (hw : (s.queue n).WellFormed)
    (hd : (s.queue n).dequeue = some (it, q)) :
    (s.setQueue n q).places + {(n.stage, it)} = s.places := by
  refine add_right_cancel (b := tagged n.stage q.contents) ?_
  rw [← places_setQueue, (TSQueue.dequeue_contents hw hd).2.2, tagged_cons]
  abel

/-- The Writer's `dequeue` moves an item from `output_queue` to its received items. -/
theorem places_write (hw : s.output_queue.WellFormed)
    (hd : s.output_queue.dequeue = some (it, q)) :
    { s with output_queue := q, written := s.written ++ [it] }.places = s.places := by
  simp only [places, queued, held, (TSQueue.dequeue_contents hw hd).2.2, tagged_cons,
    tagged_append_singleton]
  abel

theorem places_controllerStep : (s.controllerStep cfg).places = s.places := by
  simp only [places, held, controllerStep, Controller.held_step]
  rfl

end Places

/-! ### The correspondence under each kind of move -/

section Accounted

variable {tf : Transformer} {read : List Item} {s s' : Pipeline}

theorem accounted_init (h : init cfg = some s) (input : List Item) :
    Accounted tf (input.take s.read) s := by
  simp only [init, bind, Option.bind_eq_some, pure, Option.some.injEq] at h
  obtain ⟨iq, hi, wq, hw, oq, ho, rfl⟩ := h
  obtain ⟨-, rfl⟩ := TSQueue.create_some hi
  obtain ⟨-, rfl⟩ := TSQueue.create_some hw
  obtain ⟨-, rfl⟩ := TSQueue.create_some ho
  refine ⟨0, by simp, ?_⟩
  simp [places, queued, held, TSQueue.contents, TSQueue.window, ProducerPc.held]

theorem Accounted.keep (h : Accounted tf read s) (hp : s'.places = s.places) :
    Accounted tf read s' := by
  rw [Accounted, hp]; exact h

theorem Accounted.reader (h : Accounted tf read s) {it : Item}
    (hp : s'.places = s.places + {(.read, it)}) : Accounted tf (read ++ [it]) s' := by
  obtain ⟨A, hA, hs⟩ := h
  refine ⟨A + {(.read, it)}, ?_, ?_⟩
  · rw [Multiset.map_add, hA, ← Multiset.coe_add]; rfl
  · rw [hp, hs, Multiset.map_add]; rfl

/-- A transform step: an item at stage `k` reaches stage `k'` through `f`. -/
theorem Accounted.advance (h : Accounted tf read s) {k k' : Stage} {f : Item → Item}
    (hk : k ≠ k') (hf : ∀ x, k'.value tf x = f (k.value tf x)) {it : Item}
    (hp : s'.places + {(k, it)} = s.places + {(k', f it)}) : Accounted tf read s' := by
  obtain ⟨A, hA, hs⟩ := h
  have hmem : (k, it) ∈ s.places := by
    have : (k, it) ∈ s.places + {(k', f it)} := by rw [← hp]; simp
    simpa [Prod.ext_iff, hk] using this
  rw [hs, Multiset.mem_map] at hmem
  obtain ⟨⟨k₀, x⟩, hx, hkx⟩ := hmem
  simp only [Prod.mk.injEq] at hkx
  obtain ⟨rfl, rfl⟩ := hkx
  obtain ⟨B, rfl⟩ : ∃ B, A = (k₀, x) ::ₘ B := ⟨_, (Multiset.cons_erase hx).symm⟩
  refine ⟨B + {(k', x)}, ?_, ?_⟩
  · rw [← hA, Multiset.map_add, Multiset.map_cons, Multiset.map_singleton, add_comm]
    rfl
  · apply add_right_cancel (b := {(k₀, k₀.value tf x)})
    rw [hp, hs, Multiset.map_cons, Multiset.map_add, Multiset.map_singleton, hf,
      ← Multiset.singleton_add]
    abel

theorem Accounted.produce (h : Accounted tf read s) {it : Item}
    (hp : s'.places + {(.read, it)} = s.places + {(.produced, tf.produce it)}) :
    Accounted tf read s' :=
  h.advance (by decide) (Stage.value_produced tf) hp

theorem Accounted.consume (h : Accounted tf read s) {it : Item}
    (hp : s'.places + {(.produced, it)} = s.places + {(.consumed, tf.consume it)}) :
    Accounted tf read s' :=
  h.advance (by decide) (Stage.value_consumed tf) hp

end Accounted

/-! ### Each step of each thread -/

variable {cfg : Config} {tf : Transformer} {input read : List Item} {s s' : Pipeline}

theorem ProducerMove.accounted {i : Nat} {pc : ProducerPc} (hm : ProducerMove tf s i pc s')
    (hp : s.producers[i]? = some pc) (hs : Sound cfg s) (h : Accounted tf read s) :
    Accounted tf read s' := by
  cases hm with
  | spin => exact h
  | check => exact h.keep (by simpa [ProducerPc.held] using places_setProducer hp .dequeue)
  | @dequeue it q hd =>
    refine h.keep (add_right_cancel (b := {(Stage.read, it)}) ?_)
    refine (places_dequeue (s := s.setProducer i (.transform it)) .input hs.input_wf hd).trans ?_
    simpa [ProducerPc.held] using places_setProducer hp (.transform _)
  | transform it => exact h.produce (by simpa [ProducerPc.held] using places_setProducer hp _)
  | enqueue he =>
    refine h.keep ((places_enqueue (s := s.setProducer i .check) .worker hs.worker_wf he).trans ?_)
    simpa [ProducerPc.held] using places_setProducer hp .check

theorem ConsumerMove.accounted {c : Nat} {k : Consumer} (hm : ConsumerMove tf s c k s')
    (hk : s.consumers[c]? = some k) (hs : Sound cfg s) (h : Accounted tf read s) :
    Accounted tf read s' := by
  have hset := places_setConsumer hk
  cases hm with
  | @dequeue it q hpc hd =>
    refine h.keep (add_right_cancel (b := {(Stage.produced, it)}) ?_)
    refine (places_dequeue (s := s.setConsumer c { k with pc := .transform it }) .worker
      hs.worker_wf hd).trans ?_
    simpa [ConsumerPc.held, hpc] using hset { k with pc := .transform it }
  | @transform it hpc =>
    exact h.consume (by simpa [ConsumerPc.held, hpc] using hset { k with pc := .enqueue _ })
  | enqueue hpc he =>
    refine h.keep ((places_enqueue (s := s.setConsumer c { k with pc := .enable }) .output
      hs.output_wf he).trans ?_)
    simpa [ConsumerPc.held, hpc] using hset { k with pc := .enable }
  | start hpc | exit hpc | enter hpc | disable hpc | idle hpc | check hpc | enable hpc =>
    exact h.keep (places_setConsumer_of_held hk (by simp [ConsumerPc.held, hpc]))

theorem ProducerMove.read_eq {i : Nat} {pc : ProducerPc} (hm : ProducerMove tf s i pc s') :
    s'.read = s.read := by
  cases hm <;> rfl

theorem ConsumerMove.read_eq {c : Nat} {k : Consumer} (hm : ConsumerMove tf s c k s') :
    s'.read = s.read := by
  cases hm <;> rfl

theorem step_accounted {a : Actor} (hs : Sound cfg s) (h : s.step cfg tf input a = some s')
    (ha : Accounted tf (input.take s.read) s) : Accounted tf (input.take s'.read) s' := by
  cases a with
  | reader =>
    obtain ⟨it, q, hit, he, rfl⟩ := readerStep_some h
    rw [show input.take (s.read + 1) = input.take s.read ++ [it] by
      rw [List.take_succ, hit]; rfl]
    exact ha.reader (places_enqueue .input hs.input_wf he)
  | writer =>
    obtain ⟨it, q, -, hd, rfl⟩ := writerStep_some h
    exact ha.keep (places_write hs.output_wf hd)
  | producer i =>
    obtain ⟨pc, hp, hm⟩ := producerStep_some h
    rw [hm.read_eq]
    exact hm.accounted hp hs ha
  | consumer c =>
    obtain ⟨k, hk, hm⟩ := consumerStep_some h
    rw [hm.read_eq]
    exact hm.accounted hk hs ha
  | cancel c =>
    have : s.cancelStep c = some s' := h
    rw [hs.cancelStep_eq_none] at this
    cases this
  | controller =>
    cases h
    exact ha.keep places_controllerStep

/-- **Every item the Reader has enqueued is accounted for exactly once.**  In every reachable
state, the items at the six places correspond one to one with the first `read` items of the
input, each with its key and opcode and with the value of its stage: the original value in
`input_queue` or held by a producer before its transform, `producer_transform` of it after that
and in `worker_queue` or held by a consumer before its transform, and `consumer_transform` of
that after it, in `output_queue` and in the Writer's items.  Nothing else is there. -/
theorem reachable_accounted (hv : cfg.Valid) (h : Reachable cfg tf input s) :
    Accounted tf (input.take s.read) s := by
  induction h with
  | init hi => exact accounted_init hi input
  | step hr hs ih => exact step_accounted (hr.sound hv) hs ih

/-- At `pendingCancel` the three items read are at three stages: `(3, 30)` in `input_queue`,
`(2, 21)` in the producer's hands and `(1, 22)` received by the Writer, with Consumer 1 being
cancelled. -/
theorem reachable_accounted_pendingCancel :
    Accounted ⟨fun _ v => v + 1, fun _ v => v * 2⟩
      (([⟨1, 10, 0⟩, ⟨2, 20, 0⟩, ⟨3, 30, 0⟩] : List Item).take 3) pendingCancel :=
  reachable_accounted Config.oneSlot_valid reachable_pendingCancel

end Pipeline

end NthuOs

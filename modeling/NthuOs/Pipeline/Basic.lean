import NthuOs.Queue.Fifo

/-!
# Items, transforms and the threads of the pipeline

`main` (`main.cpp`) builds a reader → producers → consumers → writer pipeline around three
`TSQueue<Item*>`.  This file gives the data the threads share and the local state of each thread:

* `Item` and the two transforms of `Transformer` (`item.hpp` and `transformer.hpp` are not among
  the sources: the fields are those `Producer::process` and `Consumer::process` read, and the
  transforms are parameters);
* `ProducerPc`, where a thread running `Producer::process` is in its loop;
* `Consumer`, a `Consumer` object together with its thread: where it is in `Consumer::process`,
  its `is_cancel` flag and the pthread cancellation state the code manipulates.

An item is a value here: `new Item(...)` and `delete` only move ownership, which the program
counter of the owning thread records.
-/

namespace NthuOs

/-- An `Item`: `key` and `val` are `unsigned long long`, `opcode` a `char`. -/
structure Item where
  key : UInt64
  val : UInt64
  opcode : UInt8
  deriving DecidableEq, Repr

/-- The transforms of `Transformer`, supplied by the program and taken as parameters. -/
structure Transformer where
  producer_transform : UInt8 → UInt64 → UInt64
  consumer_transform : UInt8 → UInt64 → UInt64

namespace Transformer

/-- `new Item(key, producer_transform(opcode, val), opcode)`. -/
def produce (tf : Transformer) (it : Item) : Item :=
  ⟨it.key, tf.producer_transform it.opcode it.val, it.opcode⟩

/-- `new Item(key, consumer_transform(opcode, val), opcode)`. -/
def consume (tf : Transformer) (it : Item) : Item :=
  ⟨it.key, tf.consumer_transform it.opcode it.val, it.opcode⟩

end Transformer

/-- Where a thread running `Producer::process` is in its `for (;;)` loop. -/
inductive ProducerPc where
  /-- `if (producer->input_queue->get_size() > 0)`. -/
  | check
  /-- `producer->input_queue->dequeue()`. -/
  | dequeue
  /-- Holding `transItem`: `producer_transform` and `new Item`. -/
  | transform (transItem : Item)
  /-- `producer->worker_queue->enqueue(temp)`, then `delete transItem`. -/
  | enqueue (temp : Item)
  deriving DecidableEq, Repr

/-- Where a thread running `Consumer::process` is. -/
inductive ConsumerPc where
  /-- `pthread_setcanceltype(PTHREAD_CANCEL_DEFERRED, nullptr)`. -/
  | start
  /-- `while (!consumer->is_cancel)`. -/
  | loop
  /-- `pthread_setcancelstate(PTHREAD_CANCEL_DISABLE, nullptr)`. -/
  | disable
  /-- `if (consumer->worker_queue->get_size() > 0)`. -/
  | check
  /-- `consumer->worker_queue->dequeue()`. -/
  | dequeue
  /-- Holding `TransItem`: `consumer_transform` and `new Item`. -/
  | transform (TransItem : Item)
  /-- `consumer->output_queue->enqueue(temp)`, then `delete TransItem`. -/
  | enqueue (temp : Item)
  /-- `pthread_setcancelstate(PTHREAD_CANCEL_ENABLE, nullptr)`. -/
  | enable
  /-- `delete consumer; return nullptr;` done: the thread has returned. -/
  | exited
  /-- The thread was ended by a `pthread_cancel` acted on at a cancellation point. -/
  | cancelled
  deriving DecidableEq, Repr

/-- A `Consumer` object and its thread. -/
structure Consumer where
  pc : ConsumerPc
  /-- `is_cancel`, set by `Consumer::cancel`. -/
  is_cancel : Bool
  /-- The cancelability state: `PTHREAD_CANCEL_ENABLE` (`true`) or `PTHREAD_CANCEL_DISABLE`. -/
  cancel_enabled : Bool
  /-- A `pthread_cancel` request not yet acted on. -/
  cancel_pending : Bool
  deriving DecidableEq, Repr

namespace Consumer

/-- `new Consumer(...)` then `start()`: `is_cancel = false`, and a new thread starts at the top of
`process` with cancellation enabled. -/
def new : Consumer := ⟨.start, false, true, false⟩

end Consumer

namespace ConsumerPc

/-- Between `pthread_setcancelstate(PTHREAD_CANCEL_DISABLE)` and
`pthread_setcancelstate(PTHREAD_CANCEL_ENABLE)`. -/
def disabled : ConsumerPc → Bool
  | .check | .dequeue | .transform _ | .enqueue _ | .enable => true
  | _ => false

end ConsumerPc

end NthuOs

import NthuOs.Pipeline.System

/-!
# What every reachable state of the pipeline keeps

`Pipeline.Sound` is the invariant the later results on the pipeline rest on:

* each of the three queues is a reachable state of `TSQueue` for the capacity `main` gives it,
  so the results on `TSQueue` hold of it: it is well formed and `TSQueue.contents` lists its
  items in order;
* every Consumer thread inside its `PTHREAD_CANCEL_DISABLE` window has cancellation disabled
  (`Consumer.Guarded`).

`Pipeline.Reachable.sound` proves it of every reachable state of a valid configuration.  Two
consequences are used throughout: `Pipeline.Sound.cancelStep_eq_none`, a cancellation request
never acts, since a Consumer thread only blocks in `pthread_cond_wait` inside its window; and
`Pipeline.step_kept`, a step of any other thread leaves a Consumer's thread where it is, with the
same cancelability state, and never clears its `is_cancel`.
-/

namespace NthuOs

/-- Every capacity `main` passes to `TSQueue(int)` is in `(0, INT_MAX]`. -/
structure Config.Valid (cfg : Config) : Prop where
  reader : 0 < cfg.reader_queue_size ∧ cfg.reader_queue_size ≤ INT_MAX
  worker : 0 < cfg.worker_queue_size ∧ cfg.worker_queue_size ≤ INT_MAX
  writer : 0 < cfg.writer_queue_size ∧ cfg.writer_queue_size ≤ INT_MAX

theorem Config.main_valid : Config.main.Valid := ⟨by decide, by decide, by decide⟩

theorem Config.oneSlot_valid : Config.oneSlot.Valid := ⟨by decide, by decide, by decide⟩

/-- Cancellation is disabled while the thread is inside its `PTHREAD_CANCEL_DISABLE` window. -/
def Consumer.Guarded (k : Consumer) : Prop := k.pc.disabled = true → k.cancel_enabled = false

section Guarded

variable {k k' : Consumer} {cs cs' : List Consumer}

theorem Consumer.guarded_of_enabled (h : k'.pc.disabled = false) : k'.Guarded :=
  fun h' => absurd (h.symm.trans h') Bool.false_ne_true

theorem Consumer.Guarded.keep (hk : k.Guarded) (hpc : k.pc.disabled = true)
    (he : k'.cancel_enabled = k.cancel_enabled) : k'.Guarded :=
  fun _ => he.trans (hk hpc)

theorem Consumer.guarded_new : Consumer.new.Guarded := Consumer.guarded_of_enabled rfl

theorem guarded_set (h : ∀ k ∈ cs, k.Guarded) (hk : k.Guarded) (c : Nat) :
    ∀ k' ∈ cs.set c k, k'.Guarded :=
  fun _ hk' => (List.mem_or_eq_of_mem_set hk').elim (h _) (· ▸ hk)

theorem Grows.guarded (hg : Grows cs cs') (h : ∀ k ∈ cs, k.Guarded) : ∀ k ∈ cs', k.Guarded := by
  intro k' hk'
  obtain ⟨c, hc⟩ := List.mem_iff_getElem?.1 hk'
  cases hk : cs[c]? with
  | none => rw [hg.new c k' hk hc]; exact Consumer.guarded_new
  | some k =>
    obtain ⟨k'', hk'', hpc, hen, -, -⟩ := hg.old c k hk
    rw [hc] at hk''
    cases hk''
    intro hd
    rw [hen]
    exact h k (List.getElem?_mem hk) (hpc ▸ hd)

end Guarded

namespace Pipeline

/-- The invariant of the reachable states of the pipeline. -/
structure Sound (cfg : Config) (s : Pipeline) : Prop where
  valid : cfg.Valid
  input : TSQueue.Reachable cfg.reader_queue_size s.input_queue
  worker : TSQueue.Reachable cfg.worker_queue_size s.worker_queue
  output : TSQueue.Reachable cfg.writer_queue_size s.output_queue
  guarded : ∀ k ∈ s.consumers, k.Guarded

variable {cfg : Config} {tf : Transformer} {input : List Item} {s s' : Pipeline}

theorem Sound.input_wf (h : Sound cfg s) : s.input_queue.WellFormed :=
  (h.input.wellFormed h.valid.reader.1 h.valid.reader.2).1

theorem Sound.worker_wf (h : Sound cfg s) : s.worker_queue.WellFormed :=
  (h.worker.wellFormed h.valid.worker.1 h.valid.worker.2).1

theorem Sound.output_wf (h : Sound cfg s) : s.output_queue.WellFormed :=
  (h.output.wellFormed h.valid.writer.1 h.valid.writer.2).1

theorem Sound.worker_size (h : Sound cfg s) : s.worker_queue.buffer_size = cfg.worker_queue_size :=
  (h.worker.wellFormed h.valid.worker.1 h.valid.worker.2).2

theorem Sound.setProducer (h : Sound cfg s) (i : Nat) (pc : ProducerPc) :
    Sound cfg (s.setProducer i pc) :=
  ⟨h.valid, h.input, h.worker, h.output, h.guarded⟩

theorem Sound.setConsumer (h : Sound cfg s) (c : Nat) {k : Consumer} (hk : k.Guarded) :
    Sound cfg (s.setConsumer c k) :=
  ⟨h.valid, h.input, h.worker, h.output, guarded_set h.guarded hk c⟩

theorem sound_init (hv : cfg.Valid) (h : init cfg = some s) : Sound cfg s := by
  simp only [init, bind, Option.bind_eq_some, pure, Option.some.injEq] at h
  obtain ⟨iq, hi, wq, hw, oq, ho, rfl⟩ := h
  exact ⟨hv, .create hi, .create hw, .create ho, by simp⟩

theorem blockedInWait_disabled {k : Consumer} (h : s.blockedInWait k = true) :
    k.pc.disabled = true := by
  revert h
  unfold blockedInWait
  cases k.pc <;> simp [ConsumerPc.disabled]

/-- **A cancellation request never acts**: a Consumer thread blocks in `pthread_cond_wait` only
inside its `PTHREAD_CANCEL_DISABLE` window. -/
theorem Sound.cancelStep_eq_none (hs : Sound cfg s) (c : Nat) : s.cancelStep c = none := by
  cases h : s.cancelStep c with
  | none => rfl
  | some s' =>
    obtain ⟨k, hk, -, hen, hb, -⟩ := cancelStep_some h
    have := hs.guarded k (List.getElem?_mem hk) (blockedInWait_disabled hb)
    rw [hen] at this
    cases this

theorem ProducerMove.sound {i : Nat} {pc : ProducerPc} (hm : ProducerMove tf s i pc s')
    (hs : Sound cfg s) : Sound cfg s' := by
  cases hm with
  | spin => exact hs
  | check => exact hs.setProducer _ _
  | transform => exact hs.setProducer _ _
  | dequeue hd => exact ⟨hs.valid, hs.input.dequeue hd, hs.worker, hs.output, hs.guarded⟩
  | enqueue he => exact ⟨hs.valid, hs.input, hs.worker.enqueue he, hs.output, hs.guarded⟩

theorem ConsumerMove.sound {c : Nat} {k : Consumer} (hm : ConsumerMove tf s c k s')
    (hk : s.consumers[c]? = some k) (hs : Sound cfg s) : Sound cfg s' := by
  have hg := hs.guarded k (List.getElem?_mem hk)
  cases hm with
  | start => exact hs.setConsumer c (Consumer.guarded_of_enabled rfl)
  | exit => exact hs.setConsumer c (Consumer.guarded_of_enabled rfl)
  | enter => exact hs.setConsumer c (Consumer.guarded_of_enabled rfl)
  | disable => exact hs.setConsumer c fun _ => rfl
  | idle hpc => exact hs.setConsumer c (hg.keep (by rw [hpc]; rfl) rfl)
  | check hpc => exact hs.setConsumer c (hg.keep (by rw [hpc]; rfl) rfl)
  | transform hpc => exact hs.setConsumer c (hg.keep (by rw [hpc]; rfl) rfl)
  | enable => exact hs.setConsumer c (Consumer.guarded_of_enabled rfl)
  | dequeue hpc hd =>
    refine ⟨hs.valid, hs.input, hs.worker.dequeue hd, hs.output, guarded_set hs.guarded ?_ c⟩
    exact hg.keep (by rw [hpc]; rfl) rfl
  | enqueue hpc he =>
    refine ⟨hs.valid, hs.input, hs.worker, hs.output.enqueue he, guarded_set hs.guarded ?_ c⟩
    exact hg.keep (by rw [hpc]; rfl) rfl

theorem step_sound {a : Actor} (hs : Sound cfg s) (h : s.step cfg tf input a = some s') :
    Sound cfg s' := by
  cases a with
  | reader =>
    obtain ⟨it, q, -, he, rfl⟩ := readerStep_some h
    exact { hs with input := hs.input.enqueue he }
  | writer =>
    obtain ⟨it, q, -, hd, rfl⟩ := writerStep_some h
    exact { hs with output := hs.output.dequeue hd }
  | producer i =>
    obtain ⟨pc, -, hm⟩ := producerStep_some h
    exact hm.sound hs
  | consumer c =>
    obtain ⟨k, hk, hm⟩ := consumerStep_some h
    exact hm.sound hk hs
  | cancel c =>
    have : s.cancelStep c = some s' := h
    rw [hs.cancelStep_eq_none] at this
    cases this
  | controller =>
    cases h
    exact { hs with guarded := (Controller.grows_step _ _ _ _ _ _).guarded hs.guarded }

/-- Every reachable state of the pipeline of a valid configuration is sound. -/
theorem Reachable.sound (hv : cfg.Valid) (h : Reachable cfg tf input s) : Sound cfg s := by
  induction h with
  | init hi => exact sound_init hv hi
  | step _ hs ih => exact step_sound ih hs

/-- **No cancellation request ever acts, and every queue is a reachable `TSQueue` state.**  In
every reachable state of the pipeline, each of the three queues is a state `TSQueue` reaches from
its constructor through whole `enqueue` and `dequeue` calls, and no pending `pthread_cancel` can
act on any Consumer's thread. -/
theorem reachable_queues_no_cancel (hv : cfg.Valid) (h : Reachable cfg tf input s) :
    TSQueue.Reachable cfg.reader_queue_size s.input_queue ∧
      TSQueue.Reachable cfg.worker_queue_size s.worker_queue ∧
      TSQueue.Reachable cfg.writer_queue_size s.output_queue ∧ ∀ c, s.cancelStep c = none :=
  have hs := h.sound hv
  ⟨hs.input, hs.worker, hs.output, hs.cancelStep_eq_none⟩

/-- At `pendingCancel`, Consumer 1 is blocked in `pthread_cond_wait` inside its `dequeue` with a
pending `pthread_cancel`, and still no cancellation request can act: its thread has cancellation
disabled. -/
theorem reachable_queues_no_cancel_pendingCancel :
    pendingCancel.consumers[1]? = some ⟨.dequeue, true, false, true⟩ ∧
      pendingCancel.blockedInWait ⟨.dequeue, true, false, true⟩ = true ∧
      TSQueue.Reachable Config.oneSlot.reader_queue_size pendingCancel.input_queue ∧
      TSQueue.Reachable Config.oneSlot.worker_queue_size pendingCancel.worker_queue ∧
      TSQueue.Reachable Config.oneSlot.writer_queue_size pendingCancel.output_queue ∧
      ∀ c, pendingCancel.cancelStep c = none :=
  ⟨rfl, rfl, reachable_queues_no_cancel Config.oneSlot_valid reachable_pendingCancel⟩

/-- A step of any thread but Consumer `c`'s own keeps Consumer `c` as `Kept` says. -/
theorem step_kept {a : Actor} {c : Nat} (hs : Sound cfg s) (h : s.step cfg tf input a = some s')
    (ha : a ≠ .consumer c) : Kept c s.consumers s'.consumers := by
  cases a with
  | reader =>
    obtain ⟨it, q, -, -, rfl⟩ := readerStep_some h
    exact Kept.refl c _
  | writer =>
    obtain ⟨it, q, -, -, rfl⟩ := writerStep_some h
    exact Kept.refl c _
  | producer i =>
    obtain ⟨pc, -, hm⟩ := producerStep_some h
    cases hm <;> exact Kept.refl c _
  | consumer d =>
    obtain ⟨k, -, hm⟩ := consumerStep_some h
    have hd : d ≠ c := fun hd => ha (hd ▸ rfl)
    cases hm <;> exact Kept.set _ hd
  | cancel d =>
    have : s.cancelStep d = some s' := h
    rw [hs.cancelStep_eq_none] at this
    cases this
  | controller =>
    cases h
    exact (Controller.grows_step _ _ _ _ _ _).old c

end Pipeline

end NthuOs

import Mathlib.Data.List.Basic

/-!
# The background writer of `AsyncFile`

`AsyncFile` of `asyncfile.rs` queues the pages given to `append_page`, and a worker thread
(`AsyncFile::background`) moves them to the inner file.  `flush` and `shutdown` wait until the
queue is empty and then flush the inner file.  This module models the two threads as a
transition system over the shared state and proves that no page is lost, duplicated or
reordered, and that a flush sees every page enqueued before it.

The model.

* The worker thread and the foreground thread each have a program counter (`WorkerPc`,
  `ForegroundPc`), one value per blocking point of the code.  `queueLock` and `fileLock` say which
  thread holds each mutex, and a step that locks one is enabled only while it is free.
* `append_page` takes the queue lock, pushes, notifies and unlocks; it is one step, enabled when
  the queue lock is free.  `flush` and `shutdown` take the queue lock, wait on `flushed` while the
  queue is not empty, take the file lock and flush the inner file; `shutdown` then clears `run`.
* A condition-variable wait releases the queue lock and may end at any step at which the lock is
  free: wake-ups are not tied to `notify_one` or `notify_all`, so every wake-up the code can see,
  spurious ones included, is a step of the model, and `notify` is no step of its own.
* An `append_page` of the inner file that fails panics the worker (`expect`) holding both locks
  (`WorkerPc.failed`).  A foreground call that panics makes no further step.
* `enqueued`, `appended`, `callEnqueued` and `flushes` are ghost state: the pages given to
  `append_page` in call order, the pages the worker handed to the inner file's `append_page` in
  order, the pages enqueued when the running `flush` or `shutdown` took the queue lock, and one
  `FlushEvent` for each inner flush.

The results.

* `Inv` is the invariant: `appended ++ queue = enqueued`, each thread between lock and unlock holds
  the queue lock, the foreground thread flushes the inner file only with an empty queue, and a
  running call has seen no enqueue since it started.  `inv_step` proves it for one step, with one
  case for each step of either thread, and `reachable_inv` for every reachable state.
* `delivery_in_order`: in every reachable state the appended pages followed by the queued pages
  are the enqueued pages, and at every inner flush the inner file had received exactly the pages
  enqueued before the `flush` or `shutdown` call.
* `flushed_pages_stay`: after such a flush, the pages enqueued before the call stay the first pages
  of the inner file in every later state, since the worker only appends to it (`appended_step`).
-/

namespace Hammersbald.AsyncFile

/-- The two threads that take the locks. -/
inductive Thread where
  | foreground
  | worker
deriving DecidableEq, Repr

/-- The blocking points of `AsyncFile::background`. -/
inductive WorkerPc where
  /-- before `inner.queue.lock()` -/
  | start
  /-- at `while inner.run.load(..)`, holding the queue lock -/
  | checkRun
  /-- at `while queue.is_empty()` -/
  | checkEmpty
  /-- in `inner.work.wait(queue)`, the queue lock released -/
  | waiting
  /-- before `inner.file.lock()` -/
  | lockFile
  /-- in `while let Some(page) = queue.pop_front()`, holding both locks -/
  | drain
  /-- at `inner.flushed.notify_all()`; the file guard drops after it -/
  | notify
  /-- the thread has left the loop and released the queue lock -/
  | exited
  /-- the inner `append_page` failed and the thread panicked holding both locks -/
  | failed
deriving DecidableEq, Repr

/-- `flush` and `shutdown` run the same code, but for the `run.store(false)` that ends
`shutdown`. -/
inductive Call where
  | flush
  | shutdown
deriving DecidableEq, Repr

/-- The blocking points of the foreground calls. -/
inductive ForegroundPc where
  /-- between calls -/
  | idle
  /-- at `while !queue.is_empty()` of a call, holding the queue lock -/
  | check (c : Call)
  /-- in `self.inner.flushed.wait(queue)`, the queue lock released -/
  | waiting (c : Call)
  /-- before `self.inner.file.lock()` and the inner `flush()`, holding the queue lock -/
  | flushFile (c : Call)
deriving DecidableEq, Repr

/-- One flush of the inner file: the pages enqueued when the call started, and the pages the
inner file had received when its flush ran. -/
structure FlushEvent (P : Type) where
  call : Call
  enqueuedBefore : List P
  appendedAtFlush : List P
deriving DecidableEq, Repr

/-- The shared state of the two threads, with the ghost history. -/
structure State (P : Type) where
  queue : List P
  run : Bool
  queueLock : Option Thread
  fileLock : Option Thread
  worker : WorkerPc
  fg : ForegroundPc
  enqueued : List P
  appended : List P
  callEnqueued : List P
  flushes : List (FlushEvent P)
deriving DecidableEq, Repr

variable {P : Type}

/-- The state right after `AsyncFile::new`: an empty queue, `run` set, and the worker spawned. -/
def init : State P :=
  ⟨[], true, none, none, .start, .idle, [], [], [], []⟩

/-- One step of either thread. -/
inductive Step : State P → State P → Prop where
  | workerLock {s : State P} : s.worker = .start → s.queueLock = none →
      Step s { s with worker := .checkRun, queueLock := some .worker }
  | workerRun {s : State P} : s.worker = .checkRun → s.run = true →
      Step s { s with worker := .checkEmpty }
  | workerExit {s : State P} : s.worker = .checkRun → s.run = false →
      Step s { s with worker := .exited, queueLock := none }
  | workerWait {s : State P} : s.worker = .checkEmpty → s.queue = [] →
      Step s { s with worker := .waiting, queueLock := none }
  | workerWake {s : State P} : s.worker = .waiting → s.queueLock = none →
      Step s { s with worker := .checkEmpty, queueLock := some .worker }
  | workerNonempty {s : State P} : s.worker = .checkEmpty → s.queue ≠ [] →
      Step s { s with worker := .lockFile }
  | workerLockFile {s : State P} : s.worker = .lockFile → s.fileLock = none →
      Step s { s with worker := .drain, fileLock := some .worker }
  | workerPop {s : State P} {p : P} {rest : List P} : s.worker = .drain → s.queue = p :: rest →
      Step s { s with queue := rest, appended := s.appended ++ [p] }
  | workerFail {s : State P} {p : P} {rest : List P} : s.worker = .drain → s.queue = p :: rest →
      Step s { s with worker := .failed, queue := rest, appended := s.appended ++ [p] }
  | workerDrained {s : State P} : s.worker = .drain → s.queue = [] →
      Step s { s with worker := .notify }
  | workerNotify {s : State P} : s.worker = .notify →
      Step s { s with worker := .checkRun, fileLock := none }
  | appendPage {s : State P} (p : P) : s.fg = .idle → s.queueLock = none →
      Step s { s with queue := s.queue ++ [p], enqueued := s.enqueued ++ [p] }
  | call {s : State P} (c : Call) : s.fg = .idle → s.queueLock = none →
      Step s { s with fg := .check c, queueLock := some .foreground, callEnqueued := s.enqueued }
  | callWait {s : State P} {c : Call} : s.fg = .check c → s.queue ≠ [] →
      Step s { s with fg := .waiting c, queueLock := none }
  | callWake {s : State P} {c : Call} : s.fg = .waiting c → s.queueLock = none →
      Step s { s with fg := .check c, queueLock := some .foreground }
  | callEmpty {s : State P} {c : Call} : s.fg = .check c → s.queue = [] →
      Step s { s with fg := .flushFile c }
  | callFlush {s : State P} {c : Call} : s.fg = .flushFile c → s.fileLock = none →
      Step s { s with fg := .idle, queueLock := none,
                      run := if c = .shutdown then false else s.run,
                      flushes := s.flushes ++ [⟨c, s.callEnqueued, s.appended⟩] }

/-- The states an `AsyncFile` can reach. -/
inductive Reachable : State P → Prop where
  | init : Reachable init
  | step {s t : State P} : Reachable s → Step s t → Reachable t

/-! ## Who holds the queue lock -/

/-- The worker holds the queue lock from `lock()` to the wait or the end of the loop, and keeps
it when it panics. -/
def WorkerPc.holdsQueue : WorkerPc → Bool
  | .checkRun | .checkEmpty | .lockFile | .drain | .notify | .failed => true
  | .start | .waiting | .exited => false

/-- A foreground call holds the queue lock except while it waits on `flushed`. -/
def ForegroundPc.holdsQueue : ForegroundPc → Bool
  | .check _ | .flushFile _ => true
  | .idle | .waiting _ => false

/-! ## The invariant -/

/-- The invariant of the reachable states. -/
structure Inv (s : State P) : Prop where
  appended_queue : s.appended ++ s.queue = s.enqueued
  worker_lock : s.worker.holdsQueue → s.queueLock = some .worker
  fg_lock : s.fg.holdsQueue → s.queueLock = some .foreground
  flushFile_empty : ∀ c, s.fg = .flushFile c → s.queue = []
  callEnqueued_eq : s.fg ≠ .idle → s.callEnqueued = s.enqueued
  flushes_eq : ∀ e ∈ s.flushes, e.appendedAtFlush = e.enqueuedBefore

theorem inv_init : Inv (init : State P) where
  appended_queue := rfl
  worker_lock h := by simp [init, WorkerPc.holdsQueue] at h
  fg_lock h := by simp [init, ForegroundPc.holdsQueue] at h
  flushFile_empty _ h := by cases h
  callEnqueued_eq h := absurd rfl h
  flushes_eq _ h := by cases h

section Exclusion

variable {s : State P} (hi : Inv s)
include hi

/-- No thread holds the queue lock while it is free. -/
theorem worker_not_holds_of_free (h : s.queueLock = none) : s.worker.holdsQueue = false := by
  cases hw : s.worker.holdsQueue
  · rfl
  · simp [hi.worker_lock hw] at h

theorem fg_not_holds_of_free (h : s.queueLock = none) : s.fg.holdsQueue = false := by
  cases hf : s.fg.holdsQueue
  · rfl
  · simp [hi.fg_lock hf] at h

/-- The two threads never hold the queue lock together. -/
theorem fg_not_holds_of_worker (h : s.worker.holdsQueue) : s.fg.holdsQueue = false := by
  cases hf : s.fg.holdsQueue
  · rfl
  · have := (hi.fg_lock hf).symm.trans (hi.worker_lock h)
    simp at this

theorem worker_not_holds_of_fg (h : s.fg.holdsQueue) : s.worker.holdsQueue = false := by
  cases hw : s.worker.holdsQueue
  · rfl
  · simp [fg_not_holds_of_worker hi hw] at h

end Exclusion

/-- Every step keeps the invariant. -/
theorem inv_step {s t : State P} (hi : Inv s) (h : Step s t) : Inv t := by
  cases h with
  | workerLock _ hq | workerWake _ hq =>
    exact { hi with
      worker_lock := fun _ => rfl
      fg_lock := fun hf => by simp [fg_not_holds_of_free hi hq] at hf }
  | workerRun hw | workerNonempty hw | workerLockFile hw | workerDrained hw | workerNotify hw =>
    exact { hi with worker_lock := fun _ => hi.worker_lock (by rw [hw]; rfl) }
  | workerExit hw | workerWait hw =>
    exact { hi with
      worker_lock := fun h => by cases h
      fg_lock := fun hf => by
        simp [fg_not_holds_of_worker hi (by rw [hw]; rfl)] at hf }
  | workerPop hw hq =>
    have hf := fg_not_holds_of_worker hi (by rw [hw]; rfl)
    exact { hi with
      appended_queue := by rw [← hi.appended_queue, hq]; simp
      flushFile_empty := fun c hc => by simp only at hc; simp [hc, ForegroundPc.holdsQueue] at hf }
  | workerFail hw hq =>
    have hf := fg_not_holds_of_worker hi (by rw [hw]; rfl)
    exact { hi with
      appended_queue := by rw [← hi.appended_queue, hq]; simp
      worker_lock := fun _ => hi.worker_lock (by rw [hw]; rfl)
      flushFile_empty := fun c hc => by simp only at hc; simp [hc, ForegroundPc.holdsQueue] at hf }
  | appendPage p hf _ =>
    exact { hi with
      appended_queue := by rw [← List.append_assoc, hi.appended_queue]
      flushFile_empty := fun c hc => by rw [hf] at hc; cases hc
      callEnqueued_eq := fun h => absurd hf h }
  | call c _ hq =>
    exact { hi with
      worker_lock := fun hw => by simp [worker_not_holds_of_free hi hq] at hw
      fg_lock := fun _ => rfl
      flushFile_empty := fun c' hc => by cases hc
      callEnqueued_eq := fun _ => rfl }
  | callWait hf _ =>
    exact { hi with
      worker_lock := fun hw => by
        simp [worker_not_holds_of_fg hi (by rw [hf]; rfl)] at hw
      fg_lock := fun h => by cases h
      flushFile_empty := fun c' hc => by cases hc
      callEnqueued_eq := fun _ => hi.callEnqueued_eq (by rw [hf]; simp) }
  | callWake hf hq =>
    exact { hi with
      worker_lock := fun hw => by simp [worker_not_holds_of_free hi hq] at hw
      fg_lock := fun _ => rfl
      flushFile_empty := fun c' hc => by cases hc
      callEnqueued_eq := fun _ => hi.callEnqueued_eq (by rw [hf]; simp) }
  | callEmpty hf hq =>
    exact { hi with
      fg_lock := fun _ => hi.fg_lock (by rw [hf]; rfl)
      flushFile_empty := fun _ _ => hq
      callEnqueued_eq := fun _ => hi.callEnqueued_eq (by rw [hf]; simp) }
  | @callFlush c hf _ =>
    have hcall : s.callEnqueued = s.appended := by
      rw [hi.callEnqueued_eq (by rw [hf]; simp), ← hi.appended_queue,
        hi.flushFile_empty c hf, List.append_nil]
    exact { hi with
      worker_lock := fun hw => by
        simp [worker_not_holds_of_fg hi (by rw [hf]; rfl)] at hw
      fg_lock := fun h => by cases h
      flushFile_empty := fun c' hc => by cases hc
      callEnqueued_eq := fun h => absurd rfl h
      flushes_eq := fun e he => by
        rcases List.mem_append.mp he with he | he
        · exact hi.flushes_eq e he
        · rw [List.mem_singleton.mp he, hcall] }

theorem reachable_inv {s : State P} (h : Reachable s) : Inv s := by
  induction h with
  | init => exact inv_init
  | step _ hstep ih => exact inv_step ih hstep

/-! ## Delivery -/

/-- The worker hands the pages to the inner file in enqueue order, none lost or duplicated: the
pages handed to the inner file's `append_page`, followed by the pages still queued, are the pages
given to `AsyncFile::append_page`.  At every flush of the inner file, run by `flush` or
`shutdown` just before it returns, the inner file has received exactly the pages enqueued before
the call. -/
theorem delivery_in_order {s : State P} (h : Reachable s) :
    s.appended ++ s.queue = s.enqueued ∧
      ∀ e ∈ s.flushes, e.appendedAtFlush = e.enqueuedBefore :=
  ⟨(reachable_inv h).appended_queue, (reachable_inv h).flushes_eq⟩

/-- The state after one `append_page(7)`, a drain of the worker that ends in its wait, and a
`flush()`. -/
def afterFlush : State Nat :=
  ⟨[], true, none, none, .waiting, .idle, [7], [7], [7], [⟨.flush, [7], [7]⟩]⟩

/-- `delivery_in_order` at the end of a run that delivers a page and flushes. -/
theorem delivery_in_order_after_flush :
    Reachable afterFlush ∧ afterFlush.appended ++ afterFlush.queue = afterFlush.enqueued ∧
      ∀ e ∈ afterFlush.flushes, e.appendedAtFlush = e.enqueuedBefore := by
  have h1 := Reachable.init.step (Step.appendPage (s := init) 7 rfl rfl)
  have h2 := h1.step (Step.workerLock rfl rfl)
  have h3 := h2.step (Step.workerRun rfl rfl)
  have h4 := h3.step (Step.workerNonempty rfl (List.cons_ne_nil _ _))
  have h5 := h4.step (Step.workerLockFile rfl rfl)
  have h6 := h5.step (Step.workerPop rfl rfl)
  have h7 := h6.step (Step.workerDrained rfl rfl)
  have h8 := h7.step (Step.workerNotify rfl)
  have h9 := h8.step (Step.workerRun rfl rfl)
  have h10 := h9.step (Step.workerWait rfl rfl)
  have h11 := h10.step (Step.call .flush rfl rfl)
  have h12 := h11.step (Step.callEmpty rfl rfl)
  have h13 : Reachable afterFlush := h12.step (Step.callFlush (c := .flush) rfl rfl)
  exact ⟨h13, delivery_in_order h13⟩

/-! ## What a flush leaves behind -/

/-- One step of either thread only appends to the pages the inner file received, and adds a flush
event only for the inner flush it runs, recording the pages received so far. -/
theorem appended_step {s t : State P} (h : Step s t) :
    s.appended <+: t.appended ∧
      (t.flushes = s.flushes ∨ ∃ c, t.flushes = s.flushes ++ [⟨c, s.callEnqueued, s.appended⟩]) := by
  cases h with
  | workerPop _ _ | workerFail _ _ => exact ⟨List.prefix_append _ _, .inl rfl⟩
  | @callFlush c _ _ => exact ⟨List.prefix_refl _, .inr ⟨c, rfl⟩⟩
  | workerLock _ _ | workerRun _ _ | workerExit _ _ | workerWait _ _ | workerWake _ _
  | workerNonempty _ _ | workerLockFile _ _ | workerDrained _ _ | workerNotify _ | appendPage _ _ _
  | call _ _ _ | callWait _ _ | callWake _ _ | callEmpty _ _ => exact ⟨List.prefix_refl _, .inl rfl⟩

/-- The pages the inner file had received at each of its flushes are still the first pages it
holds, in every later state. -/
theorem flushed_prefix_appended {s : State P} (h : Reachable s) :
    ∀ e ∈ s.flushes, e.appendedAtFlush <+: s.appended := by
  induction h with
  | init => intro e he; cases he
  | step _ hstep ih =>
    obtain ⟨hpre, hfl⟩ := appended_step hstep
    intro e he
    rcases hfl with hfl | ⟨c, hfl⟩
    · exact (ih e (hfl ▸ he)).trans hpre
    · rw [hfl] at he
      rcases List.mem_append.mp he with he | he
      · exact (ih e he).trans hpre
      · rw [List.mem_singleton.mp he]
        exact hpre

/-- No page is lost after a flush.  Once `flush` or `shutdown` has flushed the inner file, every
page given to `append_page` before the call is in the inner file, in order and ahead of any later
page, in every state the two threads reach from then on, whatever they interleave. -/
theorem flushed_pages_stay {s : State P} (h : Reachable s) :
    ∀ e ∈ s.flushes, e.enqueuedBefore <+: s.appended := fun e he =>
  (reachable_inv h).flushes_eq e he ▸ flushed_prefix_appended h e he

/-- A run of `append_page(7)`, a drain by the worker, `flush()`, then `append_page(8)` that the
worker has not taken yet. -/
def flushThenAppend : State Nat :=
  ⟨[8], true, none, none, .waiting, .idle, [7, 8], [7], [7], [⟨.flush, [7], [7]⟩]⟩

/-- `flushed_pages_stay` after a flush and a later `append_page`: page `7` stays in the inner file
while page `8` waits in the queue. -/
theorem flushed_pages_stay_then_append :
    Reachable flushThenAppend ∧ ∀ e ∈ flushThenAppend.flushes, e.enqueuedBefore <+: [7] := by
  have h1 := Reachable.init.step (Step.appendPage (s := init) 7 rfl rfl)
  have h2 := h1.step (Step.workerLock rfl rfl)
  have h3 := h2.step (Step.workerRun rfl rfl)
  have h4 := h3.step (Step.workerNonempty rfl (List.cons_ne_nil _ _))
  have h5 := h4.step (Step.workerLockFile rfl rfl)
  have h6 := h5.step (Step.workerPop rfl rfl)
  have h7 := h6.step (Step.workerDrained rfl rfl)
  have h8 := h7.step (Step.workerNotify rfl)
  have h9 := h8.step (Step.workerRun rfl rfl)
  have h10 := h9.step (Step.workerWait rfl rfl)
  have h11 := h10.step (Step.call .flush rfl rfl)
  have h12 := h11.step (Step.callEmpty rfl rfl)
  have h13 := h12.step (Step.callFlush (c := .flush) rfl rfl)
  have h14 : Reachable flushThenAppend := h13.step (Step.appendPage 8 rfl rfl)
  exact ⟨h14, flushed_pages_stay h14⟩

end Hammersbald.AsyncFile

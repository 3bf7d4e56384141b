import Ffrt.Support.Machine

/-!
# Pattern — job_ring

`job_ring` (`interfaces/kits/cpp/pattern/job_ring.h`) with its default `MultiProducer = true`.
Producers push jobs into a lock-free queue `q` and then count them in `num`; the thread that
takes `token` from `0` to `1` drains the queue, running each job in its slot, and subtracts
what it ran from `num`.  `flush()` takes the token for an ffrt task, the worker, which drains
until it finds `num` at the count it ran and can give the token back; `wait()` returns when it
reads `num` at zero, after helping to drain (`HelpWorker`) or flushing, and sleeping on the
`waiter` word.

Every atomic operation is one step (sequential consistency), and a thread's place in the code is
its program counter.  Jobs are numbered in the order their `try_push` succeeded.

* `JobRing`, `step`: the queue, `num`, `token` and `waiter`, the counters of callers and
  workers, and ghost records of the jobs accepted and run and of what each `wait()` had seen run
  when it returned.
* `waitMeansDone_fails`: a drain can run a job whose producer has not yet done its `fetch_add`,
  so it subtracts the job from `num` before the job was added; a `wait()` called after another
  producer's `submit` returned then reads `num` at zero and returns before that job has run.
-/

namespace Ffrt.Pattern

open Function Machine

/-- The attributes a `job_ring` reads: `threshold`, `busy` (µs), and the queue's capacity. -/
structure JobRingAttr where
  threshold : UInt64
  busy : Nat
  capacity : Nat

/-- `job_ring_attr`'s defaults, with the default depth of `make`. -/
def JobRingAttr.default : JobRingAttr := ⟨0, 100, 1024⟩

/-- Where a caller of `submit`, `try_submit` or `wait` is.  `since` is a ghost: the number of
jobs accepted when `wait()` was called. -/
inductive RingCallerPc
  | idle
  /-- `try_push` succeeded; `num.fetch_add(1)` next. -/
  | pushed
  /-- `fetch_add` returned at least the threshold; `token.load()` next. -/
  | tokenCheck
  /-- `token` was `0`; `flush()`'s compare-exchange next. -/
  | flush
  /-- `wait<HelpWorker>()` called; `all_done()` next. -/
  | waitStart (since : Nat) (helpWorker : Bool)
  /-- `wait<false>` flushes. -/
  | waitFlush (since : Nat)
  /-- The loop condition `token.compare_exchange_strong(0, 1)`. -/
  | helpCas (since : Nat)
  | helpDrain (since n : Nat)
  | helpSub (since n : Nat)
  | helpRelease (since : Nat)
  | helpCheck (since : Nat)
  /-- All done after helping: `waiter.exchange(0)` and return. -/
  | helpNotify (since : Nat)
  /-- The final loop's `all_done()`. -/
  | loopCheck (since : Nat)
  /-- `waiter = 1`. -/
  | setWaiter (since : Nat)
  /-- `all_done()` before `waiter.wait(1)`. -/
  | recheck (since : Nat)
  /-- In `waiter.wait(1)`: blocked while `waiter` is `1`. -/
  | sleeping (since : Nat)
  /-- `waiter.exchange(0)`, then the loop again. -/
  | exchange (since : Nat)
  deriving DecidableEq, Repr

/-- Where the worker task that `flush()` submitted is. -/
inductive RingWorkerPc
  /-- Submitted, not yet run; also the counter of a worker never submitted. -/
  | start
  /-- In `drain()`, `n` jobs run. -/
  | drain (n : Nat)
  /-- `drain()` returned `n`: `num.fetch_sub(n)` next. -/
  | sub (n : Nat)
  /-- `num` was `n`: `waiter.exchange(0)` next. -/
  | allDone
  /-- `busy() > 0`: the stall's `all_done()`. -/
  | stall
  /-- `token.compare_exchange_strong(1, 0)`. -/
  | exitCas
  /-- Token given back: `all_done()`. -/
  | exitCheck
  /-- New jobs: `token.compare_exchange_strong(0, 1)`. -/
  | reacquire
  | finished
  deriving DecidableEq, Repr

structure JobRing where
  q : List Nat
  num : UInt64
  token : Nat
  waiter : Nat
  caller : Nat → RingCallerPc
  worker : Nat → RingWorkerPc
  /-- Workers submitted so far; they are `worker 0`, …, `worker (spawned - 1)`. -/
  spawned : Nat
  /-- Jobs whose `try_push` succeeded; they are `0`, …, `accepted - 1`. -/
  accepted : Nat
  /-- The jobs run, in order. -/
  executed : List Nat
  /-- For each return of `wait()`: the jobs accepted before the call, and the jobs run. -/
  returns : List (Nat × List Nat)

inductive RingAction
  /-- Caller `c`'s `try_push` succeeds (in `submit` or `try_submit`). -/
  | submit (c : Nat)
  /-- Caller `c` calls `wait<helpWorker>()`. -/
  | wait (c : Nat) (helpWorker : Bool)
  /-- Caller `c`'s next atomic operation. -/
  | caller (c : Nat)
  /-- Worker `w`'s next atomic operation. -/
  | worker (w : Nat)

namespace JobRing

def init : JobRing := ⟨[], 0, 0, 0, fun _ => .idle, fun _ => .finished, 0, 0, [], []⟩

/-- `token.compare_exchange_strong(0, 1)` and `ffrt::submit` of the worker on success. -/
def flush (s : JobRing) : JobRing :=
  if s.token = 0 then
    { s with token := 1, worker := update s.worker s.spawned .start, spawned := s.spawned + 1 }
  else s

/-- One `try_pop(run_one)`: the front job runs in its slot. -/
def pop (s : JobRing) : Option (Nat × JobRing) :=
  match s.q with
  | j :: rest => some (j, { s with q := rest, executed := s.executed ++ [j] })
  | [] => none

/-- `wait()` returns: caller `c` is idle again and what it saw is recorded. -/
def ret (s : JobRing) (c since : Nat) : JobRing :=
  { s with caller := update s.caller c .idle, returns := s.returns ++ [(since, s.executed)] }

/-- Caller `c`'s next atomic operation. -/
def callerStep (attr : JobRingAttr) (s : JobRing) (c : Nat) : Option JobRing :=
  let go (pc : RingCallerPc) (t : JobRing) : JobRing := { t with caller := update t.caller c pc }
  match s.caller c with
  | .idle => none
  | .pushed =>
      let t := { s with num := s.num + 1 }
      -- the threshold test reads what `fetch_add` returned; `token` is read only if it passes
      some (go (if attr.threshold ≤ s.num then .tokenCheck else .idle) t)
  | .tokenCheck => some (go (if s.token = 0 then .flush else .idle) s)
  | .flush => some (go .idle s.flush)
  | .waitStart since helpWorker =>
      if s.num = 0 then some (s.ret c since)
      else some (go (if helpWorker then .helpCas since else .waitFlush since) s)
  | .waitFlush since => some (go (.loopCheck since) s.flush)
  | .helpCas since =>
      if s.token = 0 then some (go (.helpDrain since 0) { s with token := 1 })
      else some (go (.loopCheck since) s)
  | .helpDrain since n =>
      match s.pop with
      | some (_, t) => some (go (.helpDrain since (n + 1)) t)
      | none => some (go (.helpSub since n) s)
  | .helpSub since n => some (go (.helpRelease since) { s with num := s.num - n.toUInt64 })
  | .helpRelease since =>
      if s.token = 1 then some (go (.helpCheck since) { s with token := 0 })
      else some (go (.helpCas since) s)
  | .helpCheck since =>
      some (go (if s.num = 0 then .helpNotify since else .helpCas since) s)
  | .helpNotify since => some ({ s with waiter := 0 }.ret c since)
  | .loopCheck since =>
      if s.num = 0 then some (s.ret c since) else some (go (.setWaiter since) s)
  | .setWaiter since => some (go (.recheck since) { s with waiter := 1 })
  | .recheck since => some (go (if s.num = 0 then .exchange since else .sleeping since) s)
  | .sleeping since => if s.waiter = 1 then none else some (go (.exchange since) s)
  | .exchange since => some (go (.loopCheck since) { s with waiter := 0 })

/-- Worker `w`'s next atomic operation. -/
def workerStep (attr : JobRingAttr) (s : JobRing) (w : Nat) : Option JobRing :=
  let go (pc : RingWorkerPc) (t : JobRing) : JobRing := { t with worker := update t.worker w pc }
  if s.spawned ≤ w then none
  else
    match s.worker w with
    | .start => some (go (.drain 0) s)
    | .drain n =>
        match s.pop with
        | some (_, t) => some (go (.drain (n + 1)) t)
        | none => some (go (.sub n) s)
    | .sub n =>
        -- all done when `fetch_sub` returned exactly the count drained; else drain again
        some (go (if s.num = n.toUInt64 then .allDone else .drain 0)
          { s with num := s.num - n.toUInt64 })
    | .allDone => some (go (if 0 < attr.busy then .stall else .exitCas) { s with waiter := 0 })
    | .stall => some (go (if s.num = 0 then .exitCas else .drain 0) s)
    | .exitCas =>
        if s.token = 1 then some (go .exitCheck { s with token := 0 }) else some (go .finished s)
    | .exitCheck => some (go (if s.num = 0 then .finished else .reacquire) s)
    | .reacquire =>
        if s.token = 0 then some (go (.drain 0) { s with token := 1 }) else some (go .finished s)
    | .finished => none

def step (attr : JobRingAttr) (s : JobRing) : RingAction → Option JobRing
  | .submit c =>
      if s.caller c = .idle ∧ s.q.length < attr.capacity then
        some { s with q := s.q ++ [s.accepted], accepted := s.accepted + 1,
                      caller := update s.caller c .pushed }
      else none
  | .wait c helpWorker =>
      if s.caller c = .idle then
        some { s with caller := update s.caller c (.waitStart s.accepted helpWorker) }
      else none
  | .caller c => callerStep attr s c
  | .worker w => workerStep attr s w

/-- **`wait()` means all done**: every return of `wait()` saw every job accepted before the call
run. -/
def WaitMeansDone (s : JobRing) : Prop := ∀ r ∈ s.returns, ∀ j < r.1, j ∈ r.2

instance : DecidablePred WaitMeansDone :=
  fun s => inferInstanceAs (Decidable (∀ r ∈ s.returns, ∀ j < r.1, j ∈ r.2))

/-- **`wait()` can return before an accepted job has run.**  Producer `0` submits job `0` and
flushes; the worker runs job `0`, producer `1` pushes job `1`, and the worker runs it too before
producer `1`'s `fetch_add`.  Producer `2` submits job `2`: `num` goes to `2` and the token is
held, so its `submit` returns.  The worker's `fetch_sub(2)` returns `2`, so `num` is `0`; a
`wait()` called now returns at once, and job `2` has not run. -/
theorem waitMeansDone_fails :
    ¬ ∀ s, Reach (step JobRingAttr.default) init s → WaitMeansDone s :=
  not_always_of_failsAfter
    [.submit 0, .caller 0, .caller 0, .caller 0, .worker 0, .worker 0, .submit 1, .worker 0,
      .worker 0, .submit 2, .caller 2, .caller 2, .worker 0, .wait 3 true, .caller 3]
    (by decide +kernel)

end JobRing

end Ffrt.Pattern

import Ffrt.Pattern.LfQueueProtocol

/-!
# Pattern — job_partner

`job_partner` (`interfaces/kits/cpp/pattern/job_partner.h`) with non-suspendable jobs.
`submit<Boost>` counts the job in `job_num`, pushes it into `partner_q` and asks
`try_add_partner` whether to add a partner worker: with `Boost` while fewer than
`max_parallelism` partners run and the queue is longer than `partner_num * ratio + threshold`
(in `uint64_t`), without it only when no partner runs.  A partner runs queued jobs until a
`try_pop` fails, gives its count back, and then either stalls as the last partner, re-adds
itself when jobs came, or exits.  Every job ends in `done_one`, which wakes the master when
`job_num` reaches zero; `wait()` returns when it reads `job_num` at zero, helping with the queue
(`HelpPartner`) and sleeping on `master_wait` in between.

`partner_q` is the `runnable_queue<mpmc_queue>` of `MpmcQueue`, with its ghost: caller `c` is
its thread `c` and partner `p` its thread `n + p`, and each step of a `try_push` or `try_pop` is
a step of the thread that runs it.  The step that returns from the call also moves the thread on
in `job_partner`, by what the call returned.  `partner_q->size()` is two steps, its load of
`iread_` and its load of `iwrite_`.  Every other atomic operation is one step (sequential
consistency); the busy-wait loops only delay, and a spurious failure of
`compare_exchange_weak` only runs the test again, so neither is a step of its own.  The callers
are `n` threads, submitters and masters; the partners are numbered in the order they are added.
Jobs are numbered in the order of their `fetch_add`.

* `JobPartner`, `step`: `partner_q`, `job_num`, `partner_num`, `master_wait`, where the callers
  and the partners are, and ghost records of the jobs counted and finished and of what each
  `wait()` saw.
* `stranded_without_parallelism`: with `max_parallelism` `0`, which the attribute's
  documentation excludes, a `Boost` submit never adds a partner.
-/

namespace Ffrt.Pattern

open Function Machine

/-- The attributes a `job_partner` reads, with the depth `reset_queue` gave `partner_q`. -/
structure JobPartnerAttr where
  maxParallelism : Nat
  ratio : Nat
  threshold : Nat
  busy : Nat
  depth : Nat

/-- `job_partner_attr`'s defaults, with the default depth of `reset_queue`. -/
def JobPartnerAttr.default : JobPartnerAttr := ⟨2, 20, 0, 100, 1024⟩

namespace JobPartnerAttr

/-- The part of `try_add_partner<Boost>`'s test before `partner_q->size()`, on `wn` partners
read. -/
def addPrefix (attr : JobPartnerAttr) (boost : Bool) (wn : Nat) : Bool :=
  if boost then decide (wn < attr.maxParallelism) else wn == 0

/-- The bound `partner_q->size()` must exceed: `wn * ratio() + th` in `uint64_t`, or `th`. -/
def addBound (attr : JobPartnerAttr) (boost : Bool) (wn : Nat) : Nat :=
  if boost then (wn * attr.ratio + attr.threshold) % 2 ^ 64 else attr.threshold

end JobPartnerAttr

/-- Where a thread is in `try_add_partner`: its load of `partner_num`, the test on the `wn` it
holds with `size()`'s load of `iread_`, `size()`'s load of `iwrite_` after `iread_` read
`head`, and the compare-exchange. -/
inductive AddPc
  | load
  | test (wn : Nat)
  | size (wn head : Nat)
  | cas (wn : Nat)
  deriving DecidableEq, Repr

/-- What one step of `try_add_partner` leads to: its next place, or its return. -/
inductive AddNext
  | cont (a : AddPc)
  | done (added : Bool)

/-- One step of `try_add_partner<Boost>` with `partner_num` at `pn` and `partner_q`'s indices at
`iread` and `iwrite`; a successful compare-exchange returns `true`, and the caller counts it. -/
def addStep (attr : JobPartnerAttr) (boost : Bool) (pn iread iwrite : Nat) : AddPc → AddNext
  | .load => .cont (.test pn)
  | .test wn => if attr.addPrefix boost wn then .cont (.size wn iread) else .done false
  | .size wn head =>
      if attr.addBound boost wn < iwrite - head then .cont (.cas wn) else .done false
  | .cas wn =>
      -- a failed compare-exchange loads the current `partner_num` into `wn` and tests again
      if pn = wn then .done true else .cont (.test pn)

/-- Where a caller goes on after running a job in `try_run`. -/
inductive CallerRet
  /-- `push<1>` found the queue full and ran a job; it tries to push job `j` again. -/
  | push (j : Nat) (boost : Bool)
  /-- `wait()`'s loop: `continue`. -/
  | wait (since : Nat) (helpPartner : Bool)
  deriving DecidableEq, Repr

/-- Where a caller of `submit` or `wait` is.  `since` is a ghost: the number of jobs counted in
`job_num` when `wait()` was called. -/
inductive CallerPc
  | idle
  /-- `job_num.fetch_add(1)` done for job `j`: `push<1>`'s `try_push` next. -/
  | push (j : Nat) (boost : Bool)
  /-- In that `try_push`. -/
  | pushing (j : Nat) (boost : Bool)
  /-- `try_push` failed: `push<1>`'s `try_run()`, whose `try_pop` is next. -/
  | pushRun (j : Nat) (boost : Bool)
  /-- In that `try_pop`. -/
  | pushPopping (j : Nat) (boost : Bool)
  /-- `trigger_partner<Boost>` after the push, at `a`. -/
  | add (boost : Bool) (a : AddPc)
  /-- Job `k` ran in `try_run`: `done_one`'s `fetch_sub` next. -/
  | run (k : Nat) (ret : CallerRet)
  /-- `done_one` found `job_num` at zero: `notify_master` next. -/
  | notify (ret : CallerRet)
  /-- `wait()`'s loop: `trigger_partner<true>`, at `a`. -/
  | waitAdd (since : Nat) (helpPartner : Bool) (a : AddPc)
  /-- `HelpPartner && partner_q->try_run()`: its `try_pop` next. -/
  | waitRun (since : Nat) (helpPartner : Bool)
  /-- In that `try_pop`. -/
  | waitPopping (since : Nat) (helpPartner : Bool)
  /-- `all_done()` after the queue. -/
  | waitCheck (since : Nat) (helpPartner : Bool)
  /-- `master_wait = 1`. -/
  | waitSet (since : Nat) (helpPartner : Bool)
  /-- `!all_done()` before sleeping. -/
  | waitRecheck (since : Nat) (helpPartner : Bool)
  /-- `has_job<true>()`: `partner_q->size()`'s load of `iread_` next, then of `iwrite_`. -/
  | waitHasJob (since : Nat) (helpPartner : Bool)
  | waitHasJobSize (since : Nat) (helpPartner : Bool) (head : Nat)
  /-- In `master_wait.wait(1)`: blocked while `master_wait` is `1`. -/
  | waitSleep (since : Nat) (helpPartner : Bool)
  /-- `master_wait.exchange(0)`, then the loop again. -/
  | waitExchange (since : Nat) (helpPartner : Bool)
  deriving DecidableEq, Repr

/-- Where a partner worker is in the task `add_partner` submits. -/
inductive PartnerPc
  /-- The loop's `trigger_partner<true>`, at `a`; a new partner starts at its load. -/
  | add (a : AddPc)
  /-- `while (partner_q->try_run())`: its `try_pop` next. -/
  | run
  /-- In that `try_pop`. -/
  | popping
  /-- Job `k` ran: `done_one` next. -/
  | job (k : Nat)
  | notify
  /-- A `try_pop` failed: `partner_num.fetch_sub(1)` next. -/
  | sub
  /-- Last partner with `busy() > 0`: `compare_exchange_strong(0, 1)` next. -/
  | lastCas
  /-- The stall's `partner_q->size() > 0`: its load of `iread_`, then of `iwrite_`. -/
  | stall
  | stallSize (head : Nat)
  /-- `partner_num.fetch_sub(1)` after the stall. -/
  | stallSub
  /-- `partner_q->size() > 0` before exiting: its two loads. -/
  | check
  | checkSize (head : Nat)
  /-- `try_add_partner<true>` before exiting, at `a`. -/
  | retry (a : AddPc)
  /-- The task returned; also a partner not added yet. -/
  | exited
  deriving DecidableEq, Repr

structure JobPartner (n : Nat) where
  /-- `partner_q`, with the threads in its calls: caller `c` is its thread `c`, partner `p` its
  thread `n + p`. -/
  pq : MpmcQueue Nat
  /-- The ghost of `partner_q`'s run: the jobs pushed, in index order, and those popped. -/
  hist : MpmcHist Nat
  jobNum : Nat
  partnerNum : Nat
  masterWait : Nat
  caller : Fin n → CallerPc
  partner : Nat → PartnerPc
  /-- Partners added so far: `partner 0`, …, `partner (spawned - 1)`. -/
  spawned : Nat
  /-- Jobs counted by `fetch_add`: `0`, …, `added - 1`. -/
  added : Nat
  /-- Jobs through `done_one`, in order. -/
  finished : List Nat
  /-- For each return of `wait()`: the jobs counted before the call, and the jobs finished. -/
  returns : List (Nat × List Nat)

inductive PartnerAction (n : Nat)
  /-- Caller `c` calls `submit<boost>`; its `fetch_add` is the call's first atomic operation. -/
  | submit (c : Fin n) (boost : Bool)
  /-- Caller `c` calls `wait<helpPartner>()`, whose first operation is `all_done()`. -/
  | wait (c : Fin n) (helpPartner : Bool)
  | caller (c : Fin n)
  | partner (p : Nat)

def CallerRet.resume : CallerRet → CallerPc
  | .push j boost => .push j boost
  | .wait since helpPartner => .waitAdd since helpPartner .load

/-- Where a `try_run` goes on: at `took k` when its `try_pop` returned `true` with job `k`, else
at `empty`. -/
def popNext {β : Type} (took : Nat → β) (empty : β) (ok : Bool) (r : Option Nat) : β :=
  if ok then r.elim empty took else empty

/-- A caller inside `submit`. -/
def CallerPc.submitting : CallerPc → Bool
  | .push .. | .pushing .. | .pushRun .. | .pushPopping .. | .add .. | .run _ (.push ..)
  | .notify (.push ..) => true
  | _ => false

namespace JobPartner

variable {n : Nat}

def init (attr : JobPartnerAttr) : JobPartner n :=
  ⟨MpmcQueue.new attr.depth, ⟨[], []⟩, 0, 0, 0, fun _ => .idle, fun _ => .exited, 0, 0, [], []⟩

/-- What `partner_q->size()` returns when no step comes between its two loads. -/
def size (s : JobPartner n) : Nat := s.pq.iwrite - s.pq.iread

@[simps -fullyApplied]
def setCaller (s : JobPartner n) (c : Fin n) (pc : CallerPc) : JobPartner n :=
  { s with caller := update s.caller c pc }

@[simps -fullyApplied]
def setPartner (s : JobPartner n) (p : Nat) (pc : PartnerPc) : JobPartner n :=
  { s with partner := update s.partner p pc }

@[simps -fullyApplied]
def setMasterWait (s : JobPartner n) (m : Nat) : JobPartner n := { s with masterWait := m }

@[simps -fullyApplied]
def setPartnerNum (s : JobPartner n) (m : Nat) : JobPartner n := { s with partnerNum := m }

/-- `partner_q` after a step, and its ghost after recording it. -/
@[simps -fullyApplied]
def setQueue (s : JobPartner n) (q : MpmcQueue Nat) (G : MpmcHist Nat) : JobPartner n :=
  { s with pq := q, hist := G }

/-- `job_num.fetch_add(1)` of `submit`, for the job numbered `added`. -/
@[simps -fullyApplied]
def countJob (s : JobPartner n) : JobPartner n :=
  { s with jobNum := s.jobNum + 1, added := s.added + 1 }

/-- `try_add_partner`'s compare-exchange succeeded. -/
@[simps -fullyApplied]
def casAdd (s : JobPartner n) : JobPartner n := { s with partnerNum := s.partnerNum + 1 }

/-- `add_partner`: the new partner's first step is the loop's `trigger_partner`. -/
@[simps -fullyApplied]
def spawn (s : JobPartner n) : JobPartner n :=
  { s with partner := update s.partner s.spawned (.add .load), spawned := s.spawned + 1 }

/-- Job `k` ran: `done_one`'s `fetch_sub`. -/
@[simps -fullyApplied]
def doneJob (s : JobPartner n) (k : Nat) : JobPartner n :=
  { s with jobNum := s.jobNum - 1, finished := s.finished ++ [k] }

/-- `wait()` returns: caller `c` is idle again, and what it saw is recorded. -/
@[simps -fullyApplied]
def ret (s : JobPartner n) (c : Fin n) (since : Nat) : JobPartner n :=
  { s with caller := update s.caller c .idle, returns := s.returns ++ [(since, s.finished)] }

/-- A step `a` of `partner_q`, which its ghost records. -/
def queueStep (s : JobPartner n) (a : QAction Nat) : Option (JobPartner n) :=
  (s.pq.step a).map fun q => s.setQueue q (s.pq.record a s.hist)

/-- Caller `c`'s next step in its call of `partner_q`; when the call returns, the caller goes
on at `next` of what it returned and of the job its `try_pop` took. -/
def callerQueue (s : JobPartner n) (c : Fin n) (next : Bool → Option Nat → CallerPc) :
    Option (JobPartner n) :=
  (s.queueStep (.resume c)).map fun t =>
    if (t.pq.pc c).isIdle then t.setCaller c (next ((t.pq.ret c).getD false) (t.pq.result c))
    else t

/-- Partner `p`'s next step in its call of `partner_q`, as `callerQueue`. -/
def partnerQueue (s : JobPartner n) (p : Nat) (next : Bool → Option Nat → PartnerPc) :
    Option (JobPartner n) :=
  (s.queueStep (.resume (n + p))).map fun t =>
    if (t.pq.pc (n + p)).isIdle then
      t.setPartner p (next ((t.pq.ret (n + p)).getD false) (t.pq.result (n + p)))
    else t

/-- Caller `c`'s step at `a` in `try_add_partner<boost>`: it goes on at `here` of the next place
there, or at `done` when the call returns; a `true` return adds a partner. -/
def callerAdd (attr : JobPartnerAttr) (s : JobPartner n) (c : Fin n) (boost : Bool) (a : AddPc)
    (here : AddPc → CallerPc) (done : CallerPc) : JobPartner n :=
  match addStep attr boost s.partnerNum s.pq.iread s.pq.iwrite a with
  | .cont a' => s.setCaller c (here a')
  | .done true => s.casAdd.spawn.setCaller c done
  | .done false => s.setCaller c done

/-- Partner `p`'s step at `a` in `try_add_partner<true>`: it goes on at `here` of the next place
there, at `yes` when the call returns `true`, adding a partner when `addNew`, and at `no` when
it returns `false`. -/
def partnerAdd (attr : JobPartnerAttr) (s : JobPartner n) (p : Nat) (a : AddPc)
    (here : AddPc → PartnerPc) (addNew : Bool) (yes no : PartnerPc) : JobPartner n :=
  match addStep attr true s.partnerNum s.pq.iread s.pq.iwrite a with
  | .cont a' => s.setPartner p (here a')
  | .done true => (if addNew then s.casAdd.spawn else s.casAdd).setPartner p yes
  | .done false => s.setPartner p no

/-- Caller `c`'s next atomic operation. -/
def callerStep (attr : JobPartnerAttr) (s : JobPartner n) (c : Fin n) : Option (JobPartner n) :=
  match s.caller c with
  | .idle => none
  | .push j boost => (s.queueStep (.tryPush c j)).map (·.setCaller c (.pushing j boost))
  | .pushing j boost =>
      s.callerQueue c fun ok _ => if ok then .add boost .load else .pushRun j boost
  | .pushRun j boost => (s.queueStep (.tryPop c)).map (·.setCaller c (.pushPopping j boost))
  | .pushPopping j boost =>
      -- `push<1>` runs a job itself while `try_push` fails, then tries again
      s.callerQueue c (popNext (.run · (.push j boost)) (.push j boost))
  | .add boost a => some (s.callerAdd attr c boost a (.add boost) .idle)
  | .run k r =>
      some ((s.doneJob k).setCaller c (if s.jobNum - 1 = 0 then .notify r else r.resume))
  | .notify r => some ((s.setMasterWait 0).setCaller c r.resume)
  | .waitAdd since help a =>
      some (s.callerAdd attr c true a (.waitAdd since help)
        (if help then .waitRun since help else .waitCheck since help))
  | .waitRun since help => (s.queueStep (.tryPop c)).map (·.setCaller c (.waitPopping since help))
  | .waitPopping since help =>
      s.callerQueue c (popNext (.run · (.wait since help)) (.waitCheck since help))
  | .waitCheck since help =>
      if s.jobNum = 0 then some (s.ret c since) else some (s.setCaller c (.waitSet since help))
  | .waitSet since help => some ((s.setMasterWait 1).setCaller c (.waitRecheck since help))
  | .waitRecheck since help =>
      -- `!all_done() && !has_job<HelpPartner>()`: `has_job` reads the queue only with `HelpPartner`
      some (s.setCaller c (if s.jobNum = 0 then .waitExchange since help
        else if help then .waitHasJob since help else .waitSleep since help))
  | .waitHasJob since help => some (s.setCaller c (.waitHasJobSize since help s.pq.iread))
  | .waitHasJobSize since help head =>
      some (s.setCaller c
        (if 0 < s.pq.iwrite - head then .waitExchange since help else .waitSleep since help))
  | .waitSleep since help =>
      if s.masterWait = 1 then none else some (s.setCaller c (.waitExchange since help))
  | .waitExchange since help =>
      some ((s.setMasterWait 0).setCaller c (.waitAdd since help .load))

/-- Partner `p`'s next atomic operation. -/
def partnerStep (attr : JobPartnerAttr) (s : JobPartner n) (p : Nat) : Option (JobPartner n) :=
  if s.spawned ≤ p then none
  else
    match s.partner p with
    | .add a => some (s.partnerAdd attr p a .add true .run .run)
    | .run => (s.queueStep (.tryPop (n + p))).map (·.setPartner p .popping)
    | .popping => s.partnerQueue p (popNext .job .sub)
    | .job k => some ((s.doneJob k).setPartner p (if s.jobNum - 1 = 0 then .notify else .run))
    | .notify => some ((s.setMasterWait 0).setPartner p .run)
    | .sub =>
        -- the last partner stalls only when `busy() > 0` and it wins the count back
        some ((s.setPartnerNum (s.partnerNum - 1)).setPartner p
          (if s.partnerNum - 1 = 0 ∧ 0 < attr.busy then .lastCas else .check))
    | .lastCas =>
        if s.partnerNum = 0 then some ((s.setPartnerNum 1).setPartner p .stall)
        else some (s.setPartner p .check)
    | .stall => some (s.setPartner p (.stallSize s.pq.iread))
    | .stallSize head =>
        some (s.setPartner p (if 0 < s.pq.iwrite - head then .add .load else .stallSub))
    | .stallSub => some ((s.setPartnerNum (s.partnerNum - 1)).setPartner p .check)
    | .check => some (s.setPartner p (.checkSize s.pq.iread))
    | .checkSize head =>
        some (s.setPartner p (if 0 < s.pq.iwrite - head then .retry .load else .exited))
    | .retry a => some (s.partnerAdd attr p a .retry false (.add .load) .exited)
    | .exited => none

def step (attr : JobPartnerAttr) (s : JobPartner n) : PartnerAction n → Option (JobPartner n)
  | .submit c boost =>
      if s.caller c = .idle then
        some (s.countJob.setCaller c (.push s.added boost))
      else none
  | .wait c help =>
      if s.caller c = .idle then
        if s.jobNum = 0 then some (s.ret c s.added)
        else some (s.setCaller c (.waitAdd s.added help .load))
      else none
  | .caller c => callerStep attr s c
  | .partner p => partnerStep attr s p

/-- No submitter is inside `submit` and every partner added has exited. -/
def Quiescent (s : JobPartner n) : Prop :=
  (∀ c, (s.caller c).submitting = false) ∧ ∀ p < s.spawned, s.partner p = .exited

instance : DecidablePred (Quiescent (n := n)) :=
  fun s => inferInstanceAs
    (Decidable ((∀ c, (s.caller c).submitting = false) ∧ ∀ p < s.spawned, s.partner p = .exited))

/-- **With `max_parallelism` `0` no partner is added.**  One `Boost` submit pushes its job and
leaves it in the queue with no partner and nothing in flight: `try_add_partner<true>` needs
`wn < 0`. -/
theorem stranded_without_parallelism :
    ∃ s : JobPartner 1, Reach (step ⟨0, 20, 0, 100, 1024⟩) (init ⟨0, 20, 0, 100, 1024⟩) s ∧
      Quiescent s ∧ s.partnerNum = 0 ∧ 0 < s.size := by
  have hrun : holdsAfter (step ⟨0, 20, 0, 100, 1024⟩) (init ⟨0, 20, 0, 100, 1024⟩ : JobPartner 1)
      [.submit 0 true, .caller 0, .caller 0, .caller 0, .caller 0, .caller 0, .caller 0]
      (fun s => Quiescent s ∧ s.partnerNum = 0 ∧ 0 < s.size) = true := by
    decide +kernel
  exact exists_of_holdsAfter _ hrun

end JobPartner

end Ffrt.Pattern

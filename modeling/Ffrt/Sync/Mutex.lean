import Ffrt.Support.Intrusive
import Ffrt.Support.Machine

/-!
# Sync — Mutex

`mutexPrivate` (`src/sync/mutex.cpp`, `src/sync/mutex_private.h`): the lock word `l`, the wait
list `list` that `wlock` protects, and the callers of `lock`, `try_lock` and `unlock`, threads
and coroutine tasks alike, each at its own place in the code.

A caller that finds the mutex taken sets `l` to `WAIT` with `l.exchange` and calls `wait()`;
there, under `wlock`, it checks that `l` is still `WAIT` and pushes its node (`ctx->wn.node` on
the thread path, `task->we.node` in the callback `CoWait` runs) onto the list.  `unlock` that
reads `WAIT` back calls `wake()`, which pops the first node under `wlock` and wakes its caller.
The thread path blocks in `ctx->wn.cv.wait(lk)` with no predicate, and does not take its node
off the list when it returns: a spurious wake-up returns from `wait()` with the node still
linked.

* `Mutex`: the lock word, the link fields of the list head and of every caller's node, and
  where each caller is (`Pc`); `Callers`: how many callers there are, and which of them block
  on a condition variable.
* `step`: each atomic operation on `l`, each `wlock` section, and a thread waiter's spurious
  wake-up, as one action of the caller that runs it.
* `entries`: the callers whose nodes `next` visits from the list head.
-/

namespace Ffrt.Sync

open Intrusive

/-- `sync_detail::UNLOCK`, `LOCK`, `WAIT`. -/
inductive LockWord
  | unlock
  | lock
  | wait
  deriving DecidableEq, Repr

/-- Where a caller is in `lock`, `try_lock`, `unlock`, `wait()` and `wake()`. -/
inductive Pc
  /-- Not in a call of the mutex. -/
  | idle
  /-- `lock`'s `compare_exchange_strong` failed; `l.load(...) == WAIT` is next. -/
  | loadCheck
  /-- The `l.exchange(WAIT)` of the `while` loop is next. -/
  | xchg
  /-- `wait()` was called: `wlock.lock()` on the thread path, the callback `CoWait` runs on the
  coroutine path. -/
  | waitEnter
  /-- In `ctx->wn.cv.wait(lk)`, or a task that `CoWait` suspended. -/
  | blocked
  /-- `lock` returned, or `try_lock` succeeded. -/
  | holding
  /-- `unlock` read `WAIT`; `wake()` is next. -/
  | waking
  deriving DecidableEq, Repr

/-- The nodes of the wait list: `none` is the mutex's own `list`, the head; `some c` is the node
of caller `c`. -/
abbrev Node := Option Nat

/-- A `mutexPrivate`: its lock word, the link fields of its list and of the callers' nodes, and
where each caller is. -/
structure Mutex where
  l : LockWord
  links : Links Node
  pc : Nat → Pc

/-- The callers `0`, ..., `n - 1`, and those of them that wait on a condition variable
(`task == nullptr`, or a task whose `Block()` is `BLOCK_THREAD`), not by `CoWait`. -/
structure Callers where
  n : Nat
  isThread : Nat → Bool

/-- The actions, each named by its caller. -/
inductive MutexAction
  /-- `lock`'s `compare_exchange_strong(UNLOCK, LOCK)`. -/
  | lock (c : Nat)
  /-- `try_lock`. -/
  | tryLock (c : Nat)
  /-- `lock_slow`'s `l.load(...) == WAIT`. -/
  | load (c : Nat)
  /-- `l.exchange(WAIT)`. -/
  | exchange (c : Nat)
  /-- `wait()`'s `wlock` section. -/
  | waitLock (c : Nat)
  /-- `ctx->wn.cv.wait(lk)` returns with no notify. -/
  | spurious (c : Nat)
  /-- `unlock`'s `l.exchange(UNLOCK)`. -/
  | unlock (c : Nat)
  /-- `wake()`. -/
  | wake (c : Nat)
  deriving DecidableEq, Repr

namespace MutexAction

/-- The caller that runs the action. -/
def caller : MutexAction → Nat
  | lock c | tryLock c | load c | exchange c | waitLock c | spurious c | unlock c | wake c => c

/-- Where the caller has to be for the action to run. -/
def site : MutexAction → Pc
  | lock _ | tryLock _ => .idle
  | load _ => .loadCheck
  | exchange _ => .xchg
  | waitLock _ => .waitEnter
  | spurious _ => .blocked
  | unlock _ => .holding
  | wake _ => .waking

/-- A spurious wake-up, which only a waiter on a condition variable has. -/
def isSpurious : MutexAction → Bool
  | spurious _ => true
  | _ => false

end MutexAction

namespace Mutex

/-- The mutex before any call: `UNLOCK`, an empty list, every node linked to itself. -/
def init : Mutex := ⟨.unlock, Links.single, fun _ => .idle⟩

/-- Caller `c` moves to `p`. -/
def setPc (s : Mutex) (c : Nat) (p : Pc) : Mutex :=
  { s with pc := Function.update s.pc c p }

/-- `lock`: the `compare_exchange_strong(UNLOCK, LOCK)` takes the mutex, or `lock_slow` is
next. -/
def lock (s : Mutex) (c : Nat) : Mutex :=
  if s.l = .unlock then { s.setPc c .holding with l := .lock } else s.setPc c .loadCheck

/-- `try_lock`: the same `compare_exchange_strong`, which returns `false` on failure. -/
def tryLock (s : Mutex) (c : Nat) : Mutex :=
  if s.l = .unlock then { s.setPc c .holding with l := .lock } else s

/-- `if (l.load(...) == WAIT) wait();`, then the `while` loop. -/
def load (s : Mutex) (c : Nat) : Mutex :=
  if s.l = .wait then s.setPc c .waitEnter else s.setPc c .xchg

/-- `while (l.exchange(WAIT) != UNLOCK) wait();` -/
def exchange (s : Mutex) (c : Nat) : Mutex :=
  { s.setPc c (if s.l = .unlock then .holding else .waitEnter) with l := .wait }

/-- `wait()`'s `wlock` section, on either path: back to the `while` loop when `l` is no longer
`WAIT`, else `list.PushBack` of the caller's node, and the caller blocks.  The thread path takes
`ctx->wn.wl` before it releases `wlock` and holds it until `cv.wait` releases it, so no
`notify_one` falls between the section and the wait. -/
def waitLock (s : Mutex) (c : Nat) : Mutex :=
  if s.l = .wait then { s.setPc c .blocked with links := s.links.insertBefore none (some c) }
  else s.setPc c .xchg

/-- `unlock`: `l.exchange(UNLOCK)`, and `wake()` when it read `WAIT`. -/
def unlock (s : Mutex) (c : Nat) : Mutex :=
  { s.setPc c (if s.l = .wait then .waking else .idle) with l := .unlock }

/-- `notify_one` or `CoWake`: a caller blocked in `wait()` returns to the `while` loop; a caller
that is not waiting misses it. -/
def notify (s : Mutex) (d : Nat) : Mutex :=
  if s.pc d = .blocked then s.setPc d .xchg else s

/-- `wake()`: `list.PopFront` under `wlock`, and the popped node's caller is woken. -/
def wake (s : Mutex) (c : Nat) : Mutex :=
  match s.links.removeNext none with
  | some (some d, L) => { s.setPc c .idle with links := L }.notify d
  | _ => s.setPc c .idle

/-- What the action does. -/
def exec (s : Mutex) : MutexAction → Mutex
  | .lock c => s.lock c
  | .tryLock c => s.tryLock c
  | .load c => s.load c
  | .exchange c => s.exchange c
  | .waitLock c => s.waitLock c
  | .spurious c => s.setPc c .xchg
  | .unlock c => s.unlock c
  | .wake c => s.wake c

/-- The action's caller is one of the callers and is where the action runs. -/
def Enabled (C : Callers) (s : Mutex) (a : MutexAction) : Prop :=
  a.caller < C.n ∧ s.pc a.caller = a.site ∧ (a.isSpurious = true → C.isThread a.caller = true)

instance (C : Callers) (s : Mutex) (a : MutexAction) : Decidable (Enabled C s a) :=
  inferInstanceAs (Decidable (_ ∧ _ ∧ _))

def step (C : Callers) (s : Mutex) (a : MutexAction) : Option Mutex :=
  if Enabled C s a then some (s.exec a) else none

/-- The callers whose nodes `next` visits from the head, at most `n + 1` of them. -/
def entries (C : Callers) (s : Mutex) : List Nat :=
  (s.links.walk none (C.n + 1) none).filterMap id

/-! ### How a step moves the callers -/

@[simp] theorem setPc_pc (s : Mutex) (c d : Nat) (p : Pc) :
    (s.setPc c p).pc d = if d = c then p else s.pc d := by
  simp [setPc, Function.update_apply]

@[simp] theorem setPc_l (s : Mutex) (c : Nat) (p : Pc) : (s.setPc c p).l = s.l := rfl

theorem step_eq {C : Callers} {s s' : Mutex} {a : MutexAction} (h : step C s a = some s') :
    Enabled C s a ∧ s' = s.exec a := by
  unfold step at h
  split at h
  · cases h
    exact ⟨by assumption, rfl⟩
  · cases h

/-- `wake()` pops the first node, or finds the list empty and leaves it. -/
theorem wake_cases (s : Mutex) (c : Nat) :
    (s.links.removeNext none = none ∧ s.wake c = s.setPc c .idle) ∨
      ∃ d L, s.links.removeNext none = some (some d, L) ∧
        s.wake c = { s.setPc c .idle with links := L }.notify d := by
  unfold wake
  split
  · rename_i d L hr
    exact .inr ⟨d, L, hr, rfl⟩
  · rename_i hr
    -- `RemoveNext` never hands back the head itself
    cases hn : s.links.removeNext none with
    | none => exact .inl ⟨rfl, rfl⟩
    | some r =>
        obtain ⟨d, L⟩ := r
        have hd : d ≠ none := by
          unfold Links.removeNext at hn
          split at hn
          · cases hn
          · cases hn
            assumption
        obtain ⟨d, rfl⟩ := Option.ne_none_iff_exists'.mp hd
        exact absurd hn (hr d L)

end Mutex

end Ffrt.Sync

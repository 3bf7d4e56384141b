import Ffrt.Support.Machine

/-!
# Sync — Timers

`TimerManager` (`src/sync/timer_manager.cpp`, `timer_manager.h`), the service behind
`ffrt_timer_start` and `ffrt_timer_stop`.  `RegisterTimer` gives each timer the next handle
(`++timerHandle_`), puts its `TimerData` in `timerMap_` as `NOT_EXECUTED`, and arms a
`DelayedWorker` wake-up keyed by the handle (`RegisterTimerImpl`).  The wake-up's `workCb`
submits a task; the task takes `timerMutex_`, finds the handle, sets `EXECUTING`, drops the lock
for the callback, takes it again, sets `EXECUTED`, and then re-arms a repeating timer or erases
the other.  `UnregisterTimer` erases a timer that is not executing, and otherwise spins,
dropping and taking the lock again, until the state is no longer `EXECUTING` or the handle is
gone.

Each `timerMutex_` section is one step.  The wake-ups armed are kept by handle, in no order of
time, so that any of them may come due (`Sync.DelayedWorker` shows that the worker claims each
dispatched entry once); the tasks are kept by handle too, as submitted and as running a
callback.  What the users of a timer service see is a log of `TimerEvent`s, the same for the
loop timers of `Eu.LoopTimer`:

* `CancelFinal`, `UnregisterWaits`, `OnceUnlessRepeat`, `HandlesFresh`: what the log is to
  satisfy; `TimerLog`, all four.
* `TimerState.Moves`: how one step may change the state of a timer.
* `TimerInv`, kept by every step, from which `timerLog_of_reach` and `moves_of_reach`.

`GetTimerStatus` only reads the map (its spin drops the lock and writes nothing), a negative
handle makes `UnregisterTimer` return `-1` before it reads anything, and `teardown` is set only
by the destructor: none of them is a step here.  `ffrt_timer_start` refuses a null callback,
so the task always drops the lock around its callback.  The task erases through the iterator
`it` it found before dropping the lock, and a `RegisterTimer` meanwhile may rehash
`timerMap_`; the model erases by handle, which is what `it` does while it stays valid.
-/

namespace Ffrt.Sync

open Function Machine

/-- `TimerState` (`INVALID` is never given to a timer). -/
inductive TimerState
  | notExecuted
  | executing
  | executed
  deriving DecidableEq, Repr

/-- What the users of a timer service see, in the order it happens. -/
inductive TimerEvent
  /-- `RegisterTimer` returned `h`, for a timer that repeats or not. -/
  | register (h : Nat) (isRepeat : Bool)
  /-- The callback of `h` starts. -/
  | start (h : Nat)
  /-- The callback of `h` returns. -/
  | finish (h : Nat)
  /-- `UnregisterTimer(h)` returned `ret`. -/
  | unregister (h : Nat) (ret : Int)
  deriving DecidableEq, Repr

namespace TimerEvent

/-- The handle a `RegisterTimer` returned. -/
def registered : TimerEvent → Option Nat
  | register h _ => some h
  | _ => none

/-- **(i)** After `UnregisterTimer(h)` returned `0`, no callback of `h` starts. -/
def CancelFinal (log : List TimerEvent) : Prop :=
  ∀ h pre post, log = pre ++ unregister h 0 :: post → start h ∉ post

/-- **(ii)** `UnregisterTimer(h)` returns only when every callback of `h` that started has
returned. -/
def UnregisterWaits (log : List TimerEvent) : Prop :=
  ∀ h r pre post, log = pre ++ unregister h r :: post →
    pre.count (start h) = pre.count (finish h)

/-- A split of a log grown by one event is at that event or a split of the log before. -/
theorem split_append_singleton {α : Type*} {l pre post : List α} {x e : α}
    (h : l ++ [e] = pre ++ x :: post) :
    (post = [] ∧ pre = l ∧ x = e) ∨ ∃ post', post = post' ++ [e] ∧ l = pre ++ x :: post' := by
  rcases List.eq_nil_or_concat post with rfl | ⟨L, b, rfl⟩
  · obtain ⟨h₁, h₂⟩ := List.append_inj' h rfl
    exact .inl ⟨rfl, h₁.symm, (List.singleton_inj.1 h₂).symm⟩
  · have h' : l ++ [e] = (pre ++ x :: L) ++ [b] := by simpa using h
    obtain ⟨h₁, h₂⟩ := List.append_inj' h' rfl
    obtain rfl := List.singleton_inj.1 h₂
    exact .inr ⟨L, by simp, h₁⟩

variable {log : List TimerEvent} {e : TimerEvent}

/-- An event that is no callback start after a cancellation keeps `CancelFinal`. -/
theorem CancelFinal.append (hlog : CancelFinal log)
    (he : ∀ h, e = start h → unregister h 0 ∉ log) : CancelFinal (log ++ [e]) := by
  intro h pre post hsplit
  rcases split_append_singleton hsplit with ⟨rfl, -, -⟩ | ⟨post', rfl, hl⟩
  · simp
  · rw [List.mem_append, List.mem_singleton, not_or]
    refine ⟨hlog h pre post' hl, fun hs => he h hs.symm ?_⟩
    simp [hl]

/-- A return of `UnregisterTimer` when the callbacks of its handle have all returned keeps
`UnregisterWaits`. -/
theorem UnregisterWaits.append (hlog : UnregisterWaits log)
    (he : ∀ h r, e = unregister h r → log.count (start h) = log.count (finish h)) :
    UnregisterWaits (log ++ [e]) := by
  intro h r pre post hsplit
  rcases split_append_singleton hsplit with ⟨-, rfl, hx⟩ | ⟨post', -, hl⟩
  · exact he h r hx.symm
  · exact hlog h r pre post' hl

end TimerEvent

/-- What the model keeps of a `TimerData`: its state and `repeat`. -/
structure TimerData where
  state : TimerState
  isRepeat : Bool
  deriving DecidableEq, Repr

structure TimerManager where
  /-- `timerMap_`, by handle. -/
  timerMap : Nat → Option TimerData
  /-- `timerHandle_ + 1`: the handles given so far are `0`, …, `nextHandle - 1`. -/
  nextHandle : Nat
  /-- The `DelayedWorker` wake-ups armed, by handle. -/
  delayed : List Nat
  /-- The tasks `workCb` submitted that have not yet taken the lock, by handle. -/
  submitted : List Nat
  /-- The tasks running a callback, the lock released, by handle. -/
  running : List Nat
  /-- `unregistering c = some h`: caller `c` spins in `UnregisterTimer(h)`. -/
  unregistering : Nat → Option Nat
  log : List TimerEvent

inductive TimerAction
  /-- `RegisterTimer` of a timer that repeats or not. -/
  | register (isRepeat : Bool)
  /-- The `DelayedWorker` calls `workCb` for a wake-up of `h`, which submits the task. -/
  | wake (h : Nat)
  /-- A submitted task of `h` takes `timerMutex_`. -/
  | execute (h : Nat)
  /-- The callback of a running task of `h` returns, and the task takes `timerMutex_` again. -/
  | executed (h : Nat)
  /-- Caller `c` calls `UnregisterTimer(h)`. -/
  | unregister (c h : Nat)
  /-- Caller `c`, spinning in `UnregisterTimer`, takes `timerMutex_` again. -/
  | spin (c : Nat)

namespace TimerManager

def init : TimerManager := ⟨fun _ => none, 0, [], [], [], fun _ => none, []⟩

/-- `RegisterTimer`: the next handle, `NOT_EXECUTED`, and the wake-up armed by
`RegisterTimerImpl`. -/
@[simps -fullyApplied]
def registerTimer (s : TimerManager) (isRepeat : Bool) : TimerManager :=
  { s with timerMap := update s.timerMap s.nextHandle (some ⟨.notExecuted, isRepeat⟩),
           nextHandle := s.nextHandle + 1, delayed := s.delayed ++ [s.nextHandle],
           log := s.log ++ [.register s.nextHandle isRepeat] }

/-- `workCb`: the wake-up of `h` submits its task. -/
@[simps -fullyApplied]
def wake (s : TimerManager) (h : Nat) : TimerManager :=
  { s with delayed := s.delayed.erase h, submitted := s.submitted ++ [h] }

/-- A task of `h` takes `timerMutex_`. -/
@[simps -fullyApplied]
def takeTask (s : TimerManager) (h : Nat) : TimerManager :=
  { s with submitted := s.submitted.erase h }

/-- The timer `h`, found as `d`, is set `EXECUTING` and its callback starts, the lock
released. -/
@[simps -fullyApplied]
def startCallback (s : TimerManager) (h : Nat) (d : TimerData) : TimerManager :=
  { s with timerMap := update s.timerMap h (some { d with state := .executing }),
           running := s.running ++ [h], log := s.log ++ [.start h] }

/-- The callback of `h` returns and its task takes the lock again. -/
@[simps -fullyApplied]
def endCallback (s : TimerManager) (h : Nat) : TimerManager :=
  { s with running := s.running.erase h, log := s.log ++ [.finish h] }

/-- `EXECUTED`, and the wake-up of a repeating timer armed again (`RegisterTimerImpl`). -/
@[simps -fullyApplied]
def rearm (s : TimerManager) (h : Nat) (d : TimerData) : TimerManager :=
  { s with timerMap := update s.timerMap h (some { d with state := .executed }),
           delayed := s.delayed ++ [h] }

/-- `timerMap_.erase`. -/
@[simps -fullyApplied]
def eraseEntry (s : TimerManager) (h : Nat) : TimerManager :=
  { s with timerMap := update s.timerMap h none }

/-- The task of `h` up to its callback: a handle no longer in the map ends it ("timer
unregistered"); otherwise the callback starts. -/
def execute (s : TimerManager) (h : Nat) : TimerManager :=
  match s.timerMap h with
  | none => s.takeTask h
  | some d => (s.takeTask h).startCallback h d

/-- The task of `h` after its callback: `EXECUTED`, then a repeating timer re-armed and another
erased. -/
def finishExecute (s : TimerManager) (h : Nat) : TimerManager :=
  match s.timerMap h with
  -- not reached: a timer whose callback runs stays in the map (`TimerInv.running`)
  | none => s.endCallback h
  | some d => if d.isRepeat then (s.endCallback h).rearm h d else (s.endCallback h).eraseEntry h

/-- One look at `h` under `timerMutex_`, as `UnregisterTimer` and each turn of its spin take
it: a handle gone from the map returns `0`, a timer not `EXECUTING` is erased and returns `0`,
and an `EXECUTING` one makes the caller spin (`none`). -/
def eraseTimer (s : TimerManager) (h : Nat) : Option TimerManager :=
  match s.timerMap h with
  | none => some s
  | some d => if d.state = .executing then none else some (s.eraseEntry h)

/-- `UnregisterTimer(h)` of caller `c` returns `r`. -/
@[simps -fullyApplied]
def ret (s : TimerManager) (c h : Nat) (r : Int) : TimerManager :=
  { s with unregistering := update s.unregistering c none, log := s.log ++ [.unregister h r] }

/-- `UnregisterTimer(h)` found the timer `EXECUTING`: caller `c` spins. -/
@[simps -fullyApplied]
def spinOn (s : TimerManager) (c h : Nat) : TimerManager :=
  { s with unregistering := update s.unregistering c (some h) }

def step (s : TimerManager) : TimerAction → Option TimerManager
  | .register isRepeat => some (s.registerTimer isRepeat)
  | .wake h => if h ∈ s.delayed then some (s.wake h) else none
  | .execute h => if h ∈ s.submitted then some (s.execute h) else none
  | .executed h => if h ∈ s.running then some (s.finishExecute h) else none
  | .unregister c h =>
      if s.unregistering c ≠ none then none
      -- `handle > timerHandle_`: a handle not given yet
      else if s.nextHandle ≤ h then some (s.ret c h (-1))
      else match s.eraseTimer h with
        | some t => some (t.ret c h 0)
        | none => some (s.spinOn c h)
  | .spin c =>
      match s.unregistering c with
      | none => none
      | some h => (s.eraseTimer h).map (·.ret c h 0)

end TimerManager

end Ffrt.Sync

import Ffrt.Sync.Timer
import Ffrt.Support.Multimap

/-!
# Eu — Loop timers

The timers of `LoopPoller` (`src/eu/loop_poller.cpp`), behind `ffrt_loop_timer_start` and
`ffrt_loop_timer_stop`.  `RegisterTimer` gives each timer the next handle (`timerHandle_ += 1`)
and puts it in `timerMap_`, a `std::multimap` from the time point it is due at
(`RegisterTimerImpl`).  The poller thread's `ExecuteTimerCb` takes the first entry while it is
due, marks its handle `EXECUTING` in `executedHandle_`, erases the entry, drops `timerMutex_` for
the callback, takes it again and marks the handle `EXECUTED`; for a repeating timer the mark is
then erased and the timer put back in `timerMap_`, due one timeout later.  `UnregisterTimer`
spins while the handle is marked `EXECUTING`, erases an `EXECUTED` mark, and otherwise erases
the timer's entry from `timerMap_`, or returns `-1` when there is none.

`BasePoller` bounds a task's wait with `PollerRegisterTimer`, which registers a timer with no
callback and no repeat in the same map and handle sequence; `ExecuteTimerCb` marks no handle
for it, erases its entry and hands its task to `ProcessTimerDataCb` with the lock released.
`PollerUnRegisterTimer` erases the entries of a set of handles from `timerMap_`, as
`WakeSyncTask` does for the tasks it wakes.

Each `timerMutex_` section is one step, and so is a tick of `steady_clock`.  `ExecuteTimerCb`
keeps the lock from one callback's return to the next entry it takes; the model lets other
steps run in between, which only adds interleavings.  The log is `Sync.TimerEvent`'s, so the
properties of `Sync.Timer` are stated of it as they are of `TimerManager`'s.

`GetTimerStatus` only reads (`stateOf` is what it finds), and the `flag_ == TEARDOWN` checks
and `WakeUp` concern the poller's teardown and its `epoll_wait`: none of them is modelled.
`ffrt_loop_timer_start` refuses a null callback, so every timer without one comes from
`PollerRegisterTimer`.  What `ProcessTimerDataCb` does with the task (`WakeTask` under
`mapMutex_`) is left out, and the model releases the lock for it even when the timer has no task,
which only adds interleavings.
-/

namespace Ffrt.Eu

open Function Machine Sync

/-- `TimerStatus`. -/
inductive TimerStatus
  | executing
  | executed
  deriving DecidableEq, Repr

/-- What the model keeps of a `TimerDataWithCb`: the handle, whether `cb` is set, `repeat` and
`timeout`. -/
structure LoopTimerData where
  handle : Nat
  hasCb : Bool
  isRepeat : Bool
  timeout : Nat
  deriving DecidableEq, Repr

structure LoopPoller where
  /-- `timerMap_`: each timer with the time point it is due at, in `std::multimap` order. -/
  timerMap : List (Nat × LoopTimerData)
  /-- `executedHandle_`. -/
  executedHandle : Nat → Option TimerStatus
  /-- `timerHandle_ + 1`: the handles given so far are `0`, …, `nextHandle - 1`. -/
  nextHandle : Nat
  /-- `steady_clock::now()`, in milliseconds. -/
  now : Nat
  /-- The timer whose callback, or whose task's `ProcessTimerDataCb`, `ExecuteTimerCb` runs,
  `timerMutex_` released. -/
  current : Option LoopTimerData
  /-- `unregistering c = some h`: caller `c` spins in `UnregisterTimer(h)`. -/
  unregistering : Nat → Option Nat
  log : List TimerEvent

inductive LoopTimerAction
  /-- `RegisterTimer` of a timer due in `timeout` ms with a callback, repeating or not. -/
  | register (timeout : Nat) (isRepeat : Bool)
  /-- `PollerRegisterTimer` of a timer due in `timeout` ms. -/
  | pollerRegister (timeout : Nat)
  /-- One millisecond passes. -/
  | tick
  /-- `ExecuteTimerCb` takes the first entry of `timerMap_`. -/
  | execute
  /-- The callback returns, and `ExecuteTimerCb` takes `timerMutex_` again. -/
  | executed
  /-- Caller `c` calls `UnregisterTimer(h)`. -/
  | unregister (c h : Nat)
  /-- Caller `c`, spinning in `UnregisterTimer`, takes `timerMutex_` again. -/
  | spin (c : Nat)
  /-- `PollerUnRegisterTimer(timerHandlesToRemove)`. -/
  | pollerUnRegister (handles : List Nat)

/-- `MAX_TIMER_MS_COUNT`: a hundred years, in milliseconds. -/
def maxTimerMsCount : Nat := 1000 * 100 * 60 * 60 * 24 * 365

/-- `UnregisterTimer`'s search of `timerMap_`: the first entry of `h` erased, if there is
one. -/
def eraseHandle (h : Nat) : List (Nat × LoopTimerData) → Option (List (Nat × LoopTimerData))
  | [] => none
  | e :: m => if e.2.handle = h then some m else (eraseHandle h m).map (e :: ·)

namespace LoopPoller

def init : LoopPoller := ⟨[], fun _ => none, 0, 0, none, fun _ => none, []⟩

/-- The handles of the timers in `timerMap_`. -/
def handles (s : LoopPoller) : List Nat := s.timerMap.map (·.2.handle)

/-- The timers live: the one whose callback runs, and those in `timerMap_`. -/
def liveTimers (s : LoopPoller) : List LoopTimerData :=
  s.current.toList ++ s.timerMap.map Prod.snd

def liveHandles (s : LoopPoller) : List Nat := s.liveTimers.map (·.handle)

/-- `RegisterTimerImpl`: the timer is due `timeout` ms from now. -/
@[simps -fullyApplied]
def registerTimerImpl (s : LoopPoller) (d : LoopTimerData) : LoopPoller :=
  { s with timerMap := Multimap.insert (s.now + d.timeout) d s.timerMap }

/-- `RegisterTimer`: the next handle, with the timeout clamped to `MAX_TIMER_MS_COUNT`. -/
@[simps -fullyApplied]
def newTimer (s : LoopPoller) (isRepeat : Bool) : LoopPoller :=
  { s with nextHandle := s.nextHandle + 1, log := s.log ++ [.register s.nextHandle isRepeat] }

def registerTimer (s : LoopPoller) (timeout : Nat) (hasCb isRepeat : Bool) : LoopPoller :=
  (s.newTimer isRepeat).registerTimerImpl
    ⟨s.nextHandle, hasCb, isRepeat, min timeout maxTimerMsCount⟩

/-- `PollerRegisterTimer`: `RegisterTimer(timeout, nullptr, nullptr)`. -/
def pollerRegisterTimer (s : LoopPoller) (timeout : Nat) : LoopPoller :=
  s.registerTimer timeout false false

/-- `ExecuteTimerCb` took the entry of `d` off `timerMap_`, leaving `rest`: the handle is
marked `EXECUTING` and the callback starts, the lock released. -/
@[simps -fullyApplied]
def startCallback (s : LoopPoller) (d : LoopTimerData) (rest : List (Nat × LoopTimerData)) :
    LoopPoller :=
  { s with timerMap := rest, executedHandle := update s.executedHandle d.handle (some .executing),
           current := some d, log := s.log ++ [.start d.handle] }

/-- `ExecuteTimerCb` took the entry of `d`, which has no callback, off `timerMap_`, leaving
`rest`: no handle is marked, and the timer's task goes to `ProcessTimerDataCb`, the lock
released. -/
@[simps -fullyApplied]
def startTask (s : LoopPoller) (d : LoopTimerData) (rest : List (Nat × LoopTimerData)) :
    LoopPoller :=
  { s with timerMap := rest, current := some d }

/-- `ExecuteTimerCb` takes the first entry of `timerMap_` when it is due. -/
def executeTimerCb (s : LoopPoller) : Option LoopPoller :=
  match s.timerMap with
  | (k, d) :: rest =>
      if k ≤ s.now then some (if d.hasCb then s.startCallback d rest else s.startTask d rest)
      else none
  | [] => none

/-- The callback of `d` returns: its handle is marked `EXECUTED`. -/
@[simps -fullyApplied]
def endCallback (s : LoopPoller) (d : LoopTimerData) : LoopPoller :=
  { s with executedHandle := update s.executedHandle d.handle (some .executed), current := none,
           log := s.log ++ [.finish d.handle] }

/-- `ProcessTimerDataCb` returns, and `ExecuteTimerCb` takes `timerMutex_` again. -/
@[simps -fullyApplied]
def endTask (s : LoopPoller) : LoopPoller := { s with current := none }

/-- The mark of `h` erased. -/
@[simps -fullyApplied]
def eraseMark (s : LoopPoller) (h : Nat) : LoopPoller :=
  { s with executedHandle := update s.executedHandle h none }

/-- After the callback of `d`, or the `ProcessTimerDataCb` of its task: a repeating timer still
marked has its mark erased and is registered again. -/
def finishTimerCb (s : LoopPoller) (d : LoopTimerData) : LoopPoller :=
  let t := if d.hasCb then s.endCallback d else s.endTask
  if d.isRepeat && (t.executedHandle d.handle).isSome then
    (t.eraseMark d.handle).registerTimerImpl d
  else t

@[simps -fullyApplied]
def setTimerMap (s : LoopPoller) (m : List (Nat × LoopTimerData)) : LoopPoller :=
  { s with timerMap := m }

/-- `PollerUnRegisterTimer`: every entry whose handle is in the set is erased from `timerMap_`;
for an empty set, which the code skips, nothing is. -/
def pollerUnRegisterTimer (s : LoopPoller) (hs : List Nat) : LoopPoller :=
  s.setTimerMap (s.timerMap.filter fun e => e.2.handle ∉ hs)

/-- `UnregisterTimer(h)` past its spin: an `EXECUTED` mark is erased (`0`); otherwise the entry
of `h` is erased from `timerMap_` (`0`), or there is none (`-1`). -/
def unregisterTimer (s : LoopPoller) (h : Nat) : LoopPoller × Int :=
  match s.executedHandle h with
  | some _ => (s.eraseMark h, 0)
  | none =>
      match eraseHandle h s.timerMap with
      | some m => (s.setTimerMap m, 0)
      | none => (s, -1)

/-- `UnregisterTimer(h)` of caller `c` returns `r`. -/
@[simps -fullyApplied]
def ret (s : LoopPoller) (c h : Nat) (r : Int) : LoopPoller :=
  { s with unregistering := update s.unregistering c none, log := s.log ++ [.unregister h r] }

/-- `UnregisterTimer(h)` found the handle marked `EXECUTING`: caller `c` spins. -/
@[simps -fullyApplied]
def spinOn (s : LoopPoller) (c h : Nat) : LoopPoller :=
  { s with unregistering := update s.unregistering c (some h) }

@[simps -fullyApplied]
def tick (s : LoopPoller) : LoopPoller := { s with now := s.now + 1 }

def step (s : LoopPoller) : LoopTimerAction → Option LoopPoller
  | .register timeout isRepeat => some (s.registerTimer timeout true isRepeat)
  | .pollerRegister timeout => some (s.pollerRegisterTimer timeout)
  | .tick => some s.tick
  | .execute => if s.current = none then s.executeTimerCb else none
  | .executed =>
      match s.current with
      | some d => some (s.finishTimerCb d)
      | none => none
  | .unregister c h =>
      if s.unregistering c ≠ none then none
      else if s.executedHandle h = some .executing then some (s.spinOn c h)
      else some ((s.unregisterTimer h).1.ret c h (s.unregisterTimer h).2)
  | .spin c =>
      match s.unregistering c with
      | none => none
      | some h =>
          if s.executedHandle h = some .executing then none
          else some ((s.unregisterTimer h).1.ret c h (s.unregisterTimer h).2)
  | .pollerUnRegister hs => some (s.pollerUnRegisterTimer hs)

end LoopPoller

end Ffrt.Eu

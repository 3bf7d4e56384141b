import Ffrt.Support.Machine

/-!
# Eu — Poller fd registrations

`BasePoller` (`src/eu/base_poller.cpp`) and the kernel's epoll interest set it drives.  Each
`AddFdEvent` builds a `PollerData` (`wakeData`, a `unique_ptr`) and hands its address to
`epoll_ctl` before any check of its own; on `EPOLL_CTL_ADD` the data joins `wakeDataMap_[fd]`,
on `EPOLL_CTL_MOD` it replaces the list's only element.  `DelFdEvent` takes the fd out of the
interest set and counts the delete in `delCntMap_`; the poller thread frees the data of deleted
registrations in `ReleaseFdWakeData` after its batch of events, keeping the last one when the fd
was added again.  A task's events that no one waits for are cached and the fd masked
(`CacheEventsAndDoMask`), unmasked when the task fetches them (`FetchCachedEventAndDoUnmask`), and
an fd that hung up is taken out of the interest set while masked (`CacheMaskFdAndEpollDel`).

* `Poller`, `step`: the interest set, the maps, the next address, and a ghost record of the
  addresses freed.
* `addFdEvent_mod_dangles`: a `MOD` on an fd in the interest set whose list does not have one
  element installs the new data in the kernel, then answers `-1` and frees it.
* `kernel_dangles`: after `ADD`, `DEL`, `ADD` and the poller's `ReleaseFdWakeData`, a `MOD` does
  exactly that.
-/

namespace Ffrt.Eu

open Function Machine

/-- A `PollerData`: its address, its fd, the events it monitors, and its task (`none` for a
thread). -/
structure PollerData where
  ptr : Nat
  fd : Nat
  events : Nat
  task : Option Nat
  deriving DecidableEq, Repr

/-- `EPOLL_CTL_ADD` or `EPOLL_CTL_MOD`, as `AddFdEvent` takes them. -/
inductive EpollOp
  | add
  | mod
  deriving DecidableEq, Repr

/-- The kernel's interest set: for each fd in it, the events and `data.ptr`. -/
abbrev Interest := Nat → Option (Nat × Nat)

namespace Interest

/-- `epoll_ctl(EPOLL_CTL_ADD)`: fails on an fd already in the set. -/
def add (k : Interest) (fd events ptr : Nat) : Option Interest :=
  if k fd = none then some (update k fd (some (events, ptr))) else none

/-- `epoll_ctl(EPOLL_CTL_MOD)`: fails on an fd not in the set. -/
def mod (k : Interest) (fd events ptr : Nat) : Option Interest :=
  if k fd = none then none else some (update k fd (some (events, ptr)))

/-- `epoll_ctl(EPOLL_CTL_DEL)`: fails on an fd not in the set. -/
def del (k : Interest) (fd : Nat) : Option Interest :=
  if k fd = none then none else some (update k fd none)

/-- `epoll_ctl` with the operation `AddFdEvent` was given. -/
def ctl (k : Interest) : EpollOp → Nat → Nat → Nat → Option Interest
  | .add => k.add
  | .mod => k.mod

end Interest

/-- The poller's maps, the interest set, and the ghost record of freed addresses. -/
structure Poller where
  kernel : Interest
  wakeDataMap : Nat → List PollerData
  /-- `delCntMap_`, in its iteration order. -/
  delCntMap : List (Nat × Nat)
  maskWakeDataMap : Nat → List PollerData
  delFdCacheMap : Nat → Option Nat
  /-- `cachedTaskEvents_`: per task, the cached events as fd and events. -/
  cachedTaskEvents : Nat → List (Nat × Nat)
  nextPtr : Nat
  freed : List Nat

inductive PollerAction
  /-- `AddFdEvent(op, events, fd, ...)` from a thread or from task `task`. -/
  | addFdEvent (op : EpollOp) (events fd : Nat) (task : Option Nat)
  | delFdEvent (fd : Nat)
  /-- The poller thread's `ReleaseFdWakeData` after a batch. -/
  | releaseFdWakeData
  /-- `WakeSyncTask` found `task` not waiting: `CacheEventsAndDoMask` of its events. -/
  | cacheEventsAndDoMask (task : Nat) (events : List (Nat × Nat))
  /-- `WaitFdEvent` of `task`: `FetchCachedEventAndDoUnmask`. -/
  | fetchCachedEventAndDoUnmask (task : Nat)
  /-- An event of `fd` with `EPOLLHUP` or `EPOLLERR` for `task`. -/
  | cacheMaskFdAndEpollDel (fd task : Nat)

namespace Poller

def init : Poller := ⟨fun _ => none, fun _ => [], [], fun _ => [], fun _ => none, fun _ => [], 0, []⟩

/-- The delete count of `fd`, when `delCntMap_` has it. -/
def delCnt (s : Poller) (fd : Nat) : Option Nat :=
  (s.delCntMap.find? fun e => e.1 = fd).map Prod.snd

/-- `delCntMap_[fd]++`. -/
def incrDelCnt (m : List (Nat × Nat)) (fd : Nat) : List (Nat × Nat) :=
  if m.any (fun e => e.1 = fd) then m.map fun e => if e.1 = fd then (e.1, e.2 + 1) else e
  else m ++ [(fd, 1)]

/-- `AddFdEvent`: the new data's address goes to `epoll_ctl` first; `wakeData` is freed on
every path that answers `-1`.  `MOD` answers `-1` when the list of the fd does not have
exactly one element, after the kernel took the new address. -/
def addFdEvent (s : Poller) (op : EpollOp) (events fd : Nat) (task : Option Nat) : Poller × Int :=
  let d : PollerData := ⟨s.nextPtr, fd, events, task⟩
  let s := { s with nextPtr := s.nextPtr + 1 }
  match s.kernel.ctl op fd events d.ptr with
  | none => ({ s with freed := s.freed ++ [d.ptr] }, -1)
  | some k =>
      let s := { s with kernel := k }
      match op with
      | .add => ({ s with wakeDataMap := update s.wakeDataMap fd (s.wakeDataMap fd ++ [d]) }, 0)
      | .mod =>
          match s.wakeDataMap fd with
          | [old] => ({ s with wakeDataMap := update s.wakeDataMap fd [d],
                               freed := s.freed ++ [old.ptr] }, 0)
          | _ => ({ s with freed := s.freed ++ [d.ptr] }, -1)

/-- `ClearMaskWakeDataCacheWithFd` of the task `delFdCacheMap_` names for `fd`, and the entry
goes (`ClearDelFdCache`). -/
def clearDelFdCache (s : Poller) (fd : Nat) : Poller :=
  match s.delFdCacheMap fd with
  | some task =>
      { s with
        maskWakeDataMap := update s.maskWakeDataMap task
          ((s.maskWakeDataMap task).filter fun d => d.fd ≠ fd)
        freed := s.freed ++ ((s.maskWakeDataMap task).filter fun d => d.fd = fd).map PollerData.ptr
        delFdCacheMap := update s.delFdCacheMap fd none }
  | none => s

/-- `DelFdEvent`: `-1` for an fd with no data, or whose adds are all deleted, or not in the
interest set; else it leaves the set, its cached events go and its delete is counted. -/
def delFdEvent (s : Poller) (fd : Nat) : Poller × Int :=
  let s := s.clearDelFdCache fd
  if s.wakeDataMap fd = [] then (s, -1)
  else if s.delCnt fd = some (s.wakeDataMap fd).length then (s, -1)
  else
    match s.kernel.del fd with
    | none => (s, -1)
    | some k =>
        ({ s with kernel := k,
                  cachedTaskEvents := fun t => (s.cachedTaskEvents t).filter fun e => e.1 ≠ fd,
                  delCntMap := incrDelCnt s.delCntMap fd }, 0)

/-- One entry of `delCntMap_` in `ReleaseFdWakeData`, with the unsigned `size - delCnt`: when
every add is deleted the data go and so does the entry; when one add is live the data of the
first `delCnt - 1` go and the count becomes `1`; else nothing changes. -/
def releaseOne (s : Poller) (e : Nat × Nat) : Poller × Option (Nat × Nat) :=
  let l := s.wakeDataMap e.1
  if l.length = e.2 then
    ({ s with wakeDataMap := update s.wakeDataMap e.1 [], freed := s.freed ++ l.map PollerData.ptr },
      none)
  else if l.length = e.2 + 1 then
    ({ s with wakeDataMap := update s.wakeDataMap e.1 (l.drop (e.2 - 1)),
              freed := s.freed ++ (l.take (e.2 - 1)).map PollerData.ptr }, some (e.1, 1))
  else (s, some e)

/-- `ReleaseFdWakeData`: every entry of `delCntMap_`, in order. -/
def releaseFdWakeData (s : Poller) : Poller :=
  let r := s.delCntMap.foldl
    (fun (acc : Poller × List (Nat × Nat)) e =>
      let r := releaseOne acc.1 e
      (r.1, acc.2 ++ r.2.toList))
    (s, [])
  { r.1 with delCntMap := r.2 }

/-- One event of `CacheEventsAndDoMask`: for an fd whose last data is the task's and which is not
all deleted, a copy with no events goes into `maskWakeDataMap_`, the fd is modified to no events
(its failure ignored) and the event is cached. -/
def cacheEvent (task : Nat) (s : Poller) (ev : Nat × Nat) : Poller :=
  match (s.wakeDataMap ev.1).getLast? with
  | some d =>
      if d.task ≠ some task ∨ s.delCnt ev.1 = some (s.wakeDataMap ev.1).length then s
      else
        { s with
          maskWakeDataMap := update s.maskWakeDataMap task
            (s.maskWakeDataMap task ++ [⟨s.nextPtr, ev.1, 0, d.task⟩])
          nextPtr := s.nextPtr + 1
          kernel := (s.kernel.mod ev.1 0 d.ptr).getD s.kernel
          cachedTaskEvents := update s.cachedTaskEvents task (s.cachedTaskEvents task ++ [ev]) }
  | none => s

/-- `CacheEventsAndDoMask`. -/
def cacheEventsAndDoMask (s : Poller) (task : Nat) (events : List (Nat × Nat)) : Poller :=
  events.foldl (cacheEvent task) s

/-- Unmasking one fd of the cached events: back to the events and address of its last data, by
`ADD` after `ClearDelFdCache` when `CacheMaskFdAndEpollDel` took it out, else by `MOD`; failures
are skipped. -/
def unmaskFd (s : Poller) (fd : Nat) : Poller :=
  match (s.wakeDataMap fd).getLast? with
  | some d =>
      if (s.delFdCacheMap fd).isSome then
        let s := s.clearDelFdCache fd
        { s with kernel := (s.kernel.add fd d.events d.ptr).getD s.kernel }
      else { s with kernel := (s.kernel.mod fd d.events d.ptr).getD s.kernel }
  | none => s

/-- `FetchCachedEventAndDoUnmask(task, ...)`: each fd of the cached events once, where it is first
seen, then the cache goes and `ClearMaskWakeDataCache` frees the task's mask data. -/
def fetchCachedEventAndDoUnmask (s : Poller) (task : Nat) : Poller :=
  if s.cachedTaskEvents task = [] then s
  else
    let s := ((s.cachedTaskEvents task).map Prod.fst).eraseDups.foldl unmaskFd s
    { s with
      cachedTaskEvents := update s.cachedTaskEvents task []
      delFdCacheMap := fun fd =>
        if (s.maskWakeDataMap task).any (fun d => d.fd = fd) then none else s.delFdCacheMap fd
      maskWakeDataMap := update s.maskWakeDataMap task []
      freed := s.freed ++ (s.maskWakeDataMap task).map PollerData.ptr }

/-- `CacheMaskFdAndEpollDel`: a task with masked data has the fd taken out of the interest set
(its failure ignored) and recorded in `delFdCacheMap_`. -/
def cacheMaskFdAndEpollDel (s : Poller) (fd task : Nat) : Poller :=
  if s.maskWakeDataMap task = [] then s
  else { s with kernel := (s.kernel.del fd).getD s.kernel,
                delFdCacheMap := update s.delFdCacheMap fd (some task) }

def step (s : Poller) : PollerAction → Option Poller
  | .addFdEvent op events fd task => some (s.addFdEvent op events fd task).1
  | .delFdEvent fd => some (s.delFdEvent fd).1
  | .releaseFdWakeData => some s.releaseFdWakeData
  | .cacheEventsAndDoMask task events => some (s.cacheEventsAndDoMask task events)
  | .fetchCachedEventAndDoUnmask task => some (s.fetchCachedEventAndDoUnmask task)
  | .cacheMaskFdAndEpollDel fd task => some (s.cacheMaskFdAndEpollDel fd task)

/-! ### A `MOD` that fails after the kernel took its data -/

/-- The state a `MOD` leaves on an fd in the interest set whose list does not have one
element: the kernel holds the new address, which is freed, and the call answers `-1`. -/
theorem addFdEvent_mod_of_length_ne (s : Poller) {events fd : Nat} (task : Option Nat)
    (hk : s.kernel fd ≠ none) (hl : (s.wakeDataMap fd).length ≠ 1) :
    s.addFdEvent .mod events fd task =
      ({ s with nextPtr := s.nextPtr + 1, kernel := update s.kernel fd (some (events, s.nextPtr)),
                freed := s.freed ++ [s.nextPtr] }, -1) := by
  have hctl : s.kernel.ctl .mod fd events s.nextPtr =
      some (update s.kernel fd (some (events, s.nextPtr))) := by
    simp [Interest.ctl, Interest.mod, hk]
  dsimp only [addFdEvent]
  simp only [hctl]
  -- only the list of one element is replaced; any other answers `-1`
  split
  · rename_i old hold
    rw [hold] at hl
    exact absurd rfl hl
  · rfl

/-- **`AddFdEvent(EPOLL_CTL_MOD)` leaves a freed address in the kernel.**  On an fd in the
interest set whose list does not hold exactly one element, the kernel takes the new data's
address, the call answers `-1`, and the data is freed and in no list of the fd. -/
theorem addFdEvent_mod_dangles (s : Poller) (events : Nat) {fd : Nat} (task : Option Nat)
    (hk : s.kernel fd ≠ none) (hl : (s.wakeDataMap fd).length ≠ 1)
    (hfresh : ∀ d ∈ s.wakeDataMap fd, d.ptr ≠ s.nextPtr) :
    (s.addFdEvent .mod events fd task).2 = -1 ∧
      (s.addFdEvent .mod events fd task).1.kernel fd = some (events, s.nextPtr) ∧
      s.nextPtr ∈ (s.addFdEvent .mod events fd task).1.freed ∧
      ∀ d ∈ (s.addFdEvent .mod events fd task).1.wakeDataMap fd, d.ptr ≠ s.nextPtr := by
  rw [addFdEvent_mod_of_length_ne s task hk hl]
  exact ⟨rfl, by simp, by simp, hfresh⟩

/-- **After `ADD`, `DEL`, `ADD` and `ReleaseFdWakeData`, a `MOD` leaves the kernel on freed data.**
The release keeps both data of the fd (one add is live), so the list has two elements; the `MOD`
that follows changes the interest set, answers `-1`, and frees the address the kernel now
holds. -/
theorem kernel_dangles :
    ∃ s t, Reach step init s ∧ step s (.addFdEvent .mod 1 3 none) = some t ∧
      (s.addFdEvent .mod 1 3 none).2 = -1 ∧ t.kernel 3 ≠ s.kernel 3 ∧
      ∃ q, t.kernel 3 = some q ∧ q.2 ∈ t.freed ∧ ∀ d ∈ t.wakeDataMap 3, d.ptr ≠ q.2 := by
  have hrun : Machine.holdsAfter step init
      [.addFdEvent .add 1 3 none, .delFdEvent 3, .addFdEvent .add 1 3 none, .releaseFdWakeData]
      (fun s : Poller => s.kernel 3 ≠ none ∧ (s.wakeDataMap 3).length ≠ 1 ∧
        s.kernel 3 ≠ some (1, s.nextPtr) ∧ ∀ d ∈ s.wakeDataMap 3, d.ptr ≠ s.nextPtr) = true := by
    decide +kernel
  obtain ⟨s, hs, hk, hl, hne, hfresh⟩ := Machine.exists_of_holdsAfter _ hrun
  obtain ⟨hret, hker, hfreed, hnot⟩ := addFdEvent_mod_dangles s 1 none hk hl hfresh
  refine ⟨s, _, hs, rfl, hret, ?_, _, hker, hfreed, hnot⟩
  rw [hker]
  exact fun h => hne h.symm

end Poller

end Ffrt.Eu

import Ffrt.Eu.LoopTimer
import Ffrt.Sync.TimerProtocol

/-!
# Eu — Loop timer protocol

What `LoopPoller`'s timers keep over every interleaving of registrations (with a callback, and
`PollerRegisterTimer`'s without), ticks, the poller thread's `ExecuteTimerCb`, callers of
`UnregisterTimer` and `PollerUnRegisterTimer`.

* `Steps`, `steps_of_step`: what one step can do, guards included.
* `LoopInv`: the live timers (the one `ExecuteTimerCb` runs and those in `timerMap_`) have
  distinct handles, all given; a handle is marked `EXECUTING` exactly while its callback runs,
  and one marked `EXECUTED` is not live; a timer that `UnregisterTimer` returned `0` for is not
  live.  Every step keeps it (`loopInv_step`); erasing entries of `timerMap_`, as
  `UnregisterTimer` and `PollerUnRegisterTimer` do, keeps it (`LoopInv.setTimerMap_sublist`).
* `timerLog_of_reach`, `moves_of_reach`: the log of every run satisfies `Sync.TimerLog`, and
  every step moves each timer along `LoopMoves`.
* `timerCancellation_of_reach`: both timer services together, `TimerManager` with
  `TimerState.Moves`; `loopTimer_leaves_states`: a repeating loop timer moves from `EXECUTING`
  back to `NOT_EXECUTED`, which `TimerState.Moves` does not allow.
-/

namespace Ffrt.Eu

open Function Machine Sync TimerEvent

/-! ### `UnregisterTimer`'s search -/

/-- The search takes out one timer of handle `h`. -/
theorem eraseHandle_perm {h : Nat} {m m' : List (Nat × LoopTimerData)}
    (he : eraseHandle h m = some m') :
    ∃ d, d.handle = h ∧ (m.map Prod.snd).Perm (d :: m'.map Prod.snd) := by
  induction m generalizing m' with
  | nil => simp [eraseHandle] at he
  | cons e m ih =>
      simp only [eraseHandle] at he
      split_ifs at he with hh
      · cases he
        exact ⟨e.2, hh, List.Perm.refl _⟩
      · obtain ⟨m'', hm'', rfl⟩ := Option.map_eq_some_iff.1 he
        obtain ⟨d, hd, hp⟩ := ih hm''
        exact ⟨d, hd, (hp.cons e.2).trans (List.Perm.swap d e.2 _)⟩

/-- The search leaves a sublist of the map. -/
theorem eraseHandle_sublist {h : Nat} {m m' : List (Nat × LoopTimerData)}
    (he : eraseHandle h m = some m') : m'.Sublist m := by
  induction m generalizing m' with
  | nil => simp [eraseHandle] at he
  | cons e m ih =>
      simp only [eraseHandle] at he
      split_ifs at he with hh
      · cases he
        exact List.sublist_cons_self e m
      · obtain ⟨m'', hm'', rfl⟩ := Option.map_eq_some_iff.1 he
        exact (ih hm'').cons_cons e

namespace LoopPoller

variable {s t u : LoopPoller} {h : Nat}

/-- What one step can do. -/
inductive Steps (s : LoopPoller) : LoopPoller → Prop
  | register (timeout : Nat) (cb b : Bool) : Steps s (s.registerTimer timeout cb b)
  | tick : Steps s s.tick
  | execute (k : Nat) (d : LoopTimerData) (rest : List (Nat × LoopTimerData))
      (hc : s.current = none) (hm : s.timerMap = (k, d) :: rest) (hk : k ≤ s.now)
      (hcb : d.hasCb = true) : Steps s (s.startCallback d rest)
  | executeTask (k : Nat) (d : LoopTimerData) (rest : List (Nat × LoopTimerData))
      (hc : s.current = none) (hm : s.timerMap = (k, d) :: rest) (hk : k ≤ s.now)
      (hcb : d.hasCb = false) : Steps s (s.startTask d rest)
  | executed (d : LoopTimerData) (hc : s.current = some d) : Steps s (s.finishTimerCb d)
  | spinOn (c h : Nat) (hc : s.unregistering c = none)
      (hx : s.executedHandle h = some .executing) : Steps s (s.spinOn c h)
  | unregister (c h : Nat) (hc : s.unregistering c = none ∨ s.unregistering c = some h)
      (hx : s.executedHandle h ≠ some .executing) :
      Steps s ((s.unregisterTimer h).1.ret c h (s.unregisterTimer h).2)
  | pollerUnRegister (l : List Nat) : Steps s (s.pollerUnRegisterTimer l)

/-- The three ways `UnregisterTimer` ends, its spin over. -/
theorem unregisterTimer_cases (s : LoopPoller) (h : Nat)
    (hx : s.executedHandle h ≠ some .executing) :
    (s.executedHandle h = some .executed ∧ s.unregisterTimer h = (s.eraseMark h, 0)) ∨
    (∃ m, s.executedHandle h = none ∧ eraseHandle h s.timerMap = some m ∧
      s.unregisterTimer h = (s.setTimerMap m, 0)) ∨
    (s.executedHandle h = none ∧ eraseHandle h s.timerMap = none ∧
      s.unregisterTimer h = (s, -1)) := by
  unfold unregisterTimer
  split
  · rename_i x hm
    cases x
    · exact absurd hm hx
    · exact .inl ⟨hm, rfl⟩
  · rename_i hm
    split
    · rename_i m he
      exact .inr (.inl ⟨m, hm, he, rfl⟩)
    · rename_i he
      exact .inr (.inr ⟨hm, he, rfl⟩)

/-- After its callback, a repeating timer is always registered again: its mark was just
set. -/
theorem finishTimerCb_of_cb (s : LoopPoller) {d : LoopTimerData} (hcb : d.hasCb = true) :
    s.finishTimerCb d =
      if d.isRepeat then ((s.endCallback d).eraseMark d.handle).registerTimerImpl d
      else s.endCallback d := by
  simp [finishTimerCb, hcb]

/-- A timer without callback and without mark is not registered again. -/
theorem finishTimerCb_of_task (s : LoopPoller) {d : LoopTimerData} (hcb : d.hasCb = false)
    (hx : s.executedHandle d.handle = none) : s.finishTimerCb d = s.endTask := by
  simp [finishTimerCb, hcb, hx]

/-! ### How the live timers change -/

theorem liveTimers_registerTimerImpl (s : LoopPoller) (d : LoopTimerData) :
    (s.registerTimerImpl d).liveTimers.Perm (d :: s.liveTimers) := by
  have hp := (Multimap.perm_insert (s.now + d.timeout) d s.timerMap).map Prod.snd
  simp only [liveTimers, registerTimerImpl_timerMap, registerTimerImpl_current, List.map_cons]
    at hp ⊢
  exact (hp.append_left _).trans List.perm_middle

theorem liveTimers_startCallback (hc : s.current = none) {k : Nat} {d : LoopTimerData}
    {rest : List (Nat × LoopTimerData)} (hm : s.timerMap = (k, d) :: rest) :
    (s.startCallback d rest).liveTimers = s.liveTimers := by
  simp [liveTimers, hc, hm]

theorem liveTimers_startTask (hc : s.current = none) {k : Nat} {d : LoopTimerData}
    {rest : List (Nat × LoopTimerData)} (hm : s.timerMap = (k, d) :: rest) :
    (s.startTask d rest).liveTimers = s.liveTimers := by
  simp [liveTimers, hc, hm]

theorem liveTimers_endCallback {d : LoopTimerData} (hc : s.current = some d) :
    s.liveTimers = d :: (s.endCallback d).liveTimers := by
  simp [liveTimers, hc]

theorem liveTimers_endTask {d : LoopTimerData} (hc : s.current = some d) :
    s.liveTimers = d :: s.endTask.liveTimers := by
  simp [liveTimers, hc]

/-- Erasing entries of `timerMap_` leaves a sublist of the live timers. -/
theorem liveTimers_setTimerMap {m : List (Nat × LoopTimerData)} (hm : m.Sublist s.timerMap) :
    (s.setTimerMap m).liveTimers.Sublist s.liveTimers := by
  simp only [liveTimers, setTimerMap_current, setTimerMap_timerMap]
  exact (hm.map _).append_left _

theorem handles_perm_of_liveTimers {s t : LoopPoller} {d : LoopTimerData}
    (hp : t.liveTimers.Perm (d :: s.liveTimers)) :
    t.liveHandles.Perm (d.handle :: s.liveHandles) := by
  simpa [liveHandles] using hp.map (·.handle)

/-- A timer in `timerMap_` is live. -/
theorem mem_liveHandles_of_mem_handles (hh : h ∈ s.handles) : h ∈ s.liveHandles := by
  simp only [handles, List.mem_map] at hh
  obtain ⟨e, he, rfl⟩ := hh
  simp only [liveHandles, liveTimers, List.map_append, List.mem_append, List.mem_map]
  exact .inr ⟨e.2, ⟨e, he, rfl⟩, rfl⟩

/-! ### The invariant -/

/-- The handle of the timer whose callback runs. -/
def callbackHandle (s : LoopPoller) : Option Nat :=
  match s.current with
  | some d => if d.hasCb then some d.handle else none
  | none => none

theorem callbackHandle_of_none (hc : s.current = none) : s.callbackHandle = none := by
  simp [callbackHandle, hc]

theorem callbackHandle_of_cb {d : LoopTimerData} (hc : s.current = some d)
    (hcb : d.hasCb = true) : s.callbackHandle = some d.handle := by
  simp [callbackHandle, hc, hcb]

theorem callbackHandle_of_task {d : LoopTimerData} (hc : s.current = some d)
    (hcb : d.hasCb = false) : s.callbackHandle = none := by
  simp [callbackHandle, hc, hcb]

/-- What holds of every reachable `LoopPoller`. -/
structure LoopInv (s : LoopPoller) : Prop where
  /-- The handles `RegisterTimer` returned are `0`, …, `nextHandle - 1`, in order. -/
  registered : s.log.filterMap TimerEvent.registered = List.range s.nextHandle
  /-- A handle not given yet is nowhere. -/
  fresh : ∀ h, s.nextHandle ≤ h →
    h ∉ s.liveHandles ∧ s.executedHandle h = none ∧ start h ∉ s.log
  /-- Distinct live timers have distinct handles. -/
  nodup : s.liveHandles.Nodup
  /-- A handle is marked `EXECUTING` exactly while its callback runs. -/
  executing : ∀ h, s.executedHandle h = some .executing ↔ s.callbackHandle = some h
  /-- A handle marked `EXECUTED` is not live. -/
  executed : ∀ h, s.executedHandle h = some .executed → h ∉ s.liveHandles
  /-- The callbacks of `h` that started and have not returned: the one running, if any. -/
  started : ∀ h, s.log.count (start h) =
    s.log.count (TimerEvent.finish h) + if s.callbackHandle = some h then 1 else 0
  /-- A timer that `UnregisterTimer` returned `0` for is not live. -/
  cancelled : ∀ h, unregister h 0 ∈ s.log → h < s.nextHandle ∧ h ∉ s.liveHandles
  /-- A live timer keeps the `repeat` it was registered with. -/
  isRepeat : ∀ h b d, register h b ∈ s.log → d ∈ s.liveTimers → d.handle = h → d.isRepeat = b
  /-- A timer registered without repeat has started its callback or is in `timerMap_`, once
  at most. -/
  once : ∀ h, register h false ∈ s.log → s.log.count (start h) + s.handles.count h ≤ 1

namespace LoopInv

variable (hI : LoopInv s)
include hI

theorem lt_of_register {b : Bool} (hm : register h b ∈ s.log) : h < s.nextHandle := by
  have hf : h ∈ s.log.filterMap TimerEvent.registered := List.mem_filterMap.2 ⟨_, hm, rfl⟩
  simpa [hI.registered] using hf

theorem lt_of_live (hh : h ∈ s.liveHandles) : h < s.nextHandle := by
  by_contra hn
  exact (hI.fresh h (Nat.le_of_not_lt hn)).1 hh

theorem lt_of_mark {x : TimerStatus} (hx : s.executedHandle h = some x) : h < s.nextHandle := by
  by_contra hn
  simp [(hI.fresh h (Nat.le_of_not_lt hn)).2.1] at hx

/-- Nor does the timer without callback that `ExecuteTimerCb` runs: it is live and runs no
callback. -/
theorem mark_none_of_task {d : LoopTimerData} (hc : s.current = some d)
    (hcb : d.hasCb = false) : s.executedHandle d.handle = none := by
  cases hx : s.executedHandle d.handle with
  | none => rfl
  | some x =>
      cases x with
      | executing =>
          have := (hI.executing _).1 hx
          rw [callbackHandle_of_task hc hcb] at this
          cases this
      | executed =>
          exact absurd (by simp [liveHandles, liveTimers, hc]) (hI.executed _ hx)

theorem registerTimer (timeout : Nat) (cb b : Bool) :
    LoopInv (s.registerTimer timeout cb b) := by
  set d : LoopTimerData := ⟨s.nextHandle, cb, b, min timeout maxTimerMsCount⟩
  rw [show s.registerTimer timeout cb b = (s.newTimer b).registerTimerImpl d from rfl]
  have hp : ((s.newTimer b).registerTimerImpl d).liveHandles.Perm
      (s.nextHandle :: s.liveHandles) :=
    handles_perm_of_liveTimers (liveTimers_registerTimerImpl (s.newTimer b) d)
  have hlive : ∀ k, k ∈ ((s.newTimer b).registerTimerImpl d).liveHandles ↔
      k = s.nextHandle ∨ k ∈ s.liveHandles := by
    intro k; simp [hp.mem_iff]
  obtain ⟨hn, hx, hl⟩ := hI.fresh s.nextHandle le_rfl
  constructor
  case registered => simp [hI.registered, TimerEvent.registered, List.range_succ]
  case fresh =>
    intro k hk
    simp only [registerTimerImpl_nextHandle, newTimer_nextHandle] at hk
    obtain ⟨hn', hx', hl'⟩ := hI.fresh k (by omega)
    refine ⟨fun hm => ?_, hx', by simpa using hl'⟩
    rcases (hlive k).1 hm with rfl | hm
    · omega
    · exact hn' hm
  case nodup => exact hp.nodup_iff.2 (List.nodup_cons.2 ⟨hn, hI.nodup⟩)
  case executing => exact hI.executing
  case executed =>
    intro k hk hm
    rcases (hlive k).1 hm with rfl | hm
    · simp [hx] at hk
    · exact hI.executed k hk hm
  case started =>
    intro k
    have hcbh : ((s.newTimer b).registerTimerImpl d).callbackHandle = s.callbackHandle := rfl
    rw [hcbh]
    simpa using hI.started k
  case cancelled =>
    intro k hk
    obtain ⟨hlt, hn'⟩ := hI.cancelled k (by simpa using hk)
    refine ⟨by simp; omega, fun hm => ?_⟩
    rcases (hlive k).1 hm with rfl | hm
    · omega
    · exact hn' hm
  case isRepeat =>
    intro k b' d' hk hd' hh
    have hmem := (liveTimers_registerTimerImpl (s.newTimer b) d).mem_iff.1 hd'
    simp only [registerTimerImpl_log, newTimer_log, List.mem_append, List.mem_singleton,
      register.injEq] at hk
    rcases List.mem_cons.1 hmem with rfl | hold
    · rcases hk with hk | ⟨rfl, rfl⟩
      · exact absurd (hI.lt_of_register hk) (by simp [d, ← hh])
      · rfl
    · have hlt : k < s.nextHandle := by
        rw [← hh]
        exact hI.lt_of_live (List.mem_map_of_mem hold)
      rcases hk with hk | ⟨rfl, -⟩
      · exact hI.isRepeat k b' d' hk hold hh
      · omega
  case once =>
    intro k hk
    have hq := ((Multimap.perm_insert (s.now + d.timeout) d s.timerMap).map
      (·.2.handle)).count_eq k
    simp only [registerTimerImpl_log, newTimer_log, List.mem_append, List.mem_singleton,
      register.injEq] at hk
    simp only [handles, registerTimerImpl_timerMap, newTimer_timerMap, newTimer_now,
      registerTimerImpl_log, newTimer_log, hq, List.map_cons, List.count_cons]
    rcases hk with hk | ⟨rfl, -⟩
    · have hne : k ≠ s.nextHandle := Nat.ne_of_lt (hI.lt_of_register hk)
      simpa [handles, d, Ne.symm hne] using hI.once k hk
    · have h0 : s.handles.count s.nextHandle = 0 :=
        List.count_eq_zero_of_not_mem fun hm => hn (mem_liveHandles_of_mem_handles hm)
      simp only [handles] at h0
      simp [List.count_eq_zero_of_not_mem hl, h0, d]

/-- `ExecuteTimerCb` takes the first entry: the timer stays live, now as the one running. -/
theorem startCallback (hc : s.current = none) {k : Nat} {d : LoopTimerData}
    {rest : List (Nat × LoopTimerData)} (hm : s.timerMap = (k, d) :: rest)
    (hcb : d.hasCb = true) : LoopInv (s.startCallback d rest) := by
  have hlive : (s.startCallback d rest).liveHandles = s.liveHandles := by
    rw [liveHandles, liveTimers_startCallback hc hm, liveHandles]
  have hd : d.handle ∈ s.liveHandles := by
    simp [liveHandles, liveTimers, hm]
  have hnone : s.callbackHandle = none := callbackHandle_of_none hc
  have hnew : (s.startCallback d rest).callbackHandle = some d.handle := by
    simp [callbackHandle, hcb]
  have hlt := hI.lt_of_live hd
  constructor
  case registered => simp [hI.registered, TimerEvent.registered]
  case fresh =>
    intro k' hk
    obtain ⟨hn, hx, hl⟩ := hI.fresh k' hk
    have hne : k' ≠ d.handle := by simp only [startCallback_nextHandle] at hk; omega
    refine ⟨hlive ▸ hn, by simpa [update_of_ne hne] using hx, ?_⟩
    simpa [hne] using hl
  case nodup => exact hlive ▸ hI.nodup
  case executing =>
    intro k'
    rw [hnew]
    by_cases hk : k' = d.handle
    · subst hk
      simp
    · have hx : s.executedHandle k' ≠ some .executing := by
        rw [Ne, hI.executing, hnone]
        simp
      simpa [update_of_ne hk, Ne.symm hk] using hx
  case executed =>
    intro k' hk
    have hne : k' ≠ d.handle := by rintro rfl; simp at hk
    exact hlive ▸ hI.executed k' (by simpa [update_of_ne hne] using hk)
  case started =>
    intro k'
    have := hI.started k'
    rw [hnone] at this
    rw [hnew]
    by_cases hk : k' = d.handle
    · subst hk
      simp only [startCallback_log, List.count_append, List.count_singleton_self, if_true]
      simp [this]
    · simpa [List.count_singleton, Ne.symm hk] using this
  case cancelled =>
    intro k' hk
    exact hlive ▸ hI.cancelled k' (by simpa using hk)
  case isRepeat =>
    intro k' b d' hk hd'
    rw [liveTimers_startCallback hc hm] at hd'
    exact hI.isRepeat k' b d' (by simpa using hk) hd'
  case once =>
    intro k' hk
    have := hI.once k' (by simpa using hk)
    simp only [handles, hm, List.map_cons, List.count_cons] at this
    by_cases hkd : k' = d.handle
    · subst hkd
      simp only [startCallback_log, List.count_append, List.count_singleton_self, handles,
        startCallback_timerMap]
      simp at this
      omega
    · simpa [handles, List.count_singleton, Ne.symm hkd, hkd] using this

/-- `ExecuteTimerCb` takes the first entry, which has no callback: the timer stays live, and no
callback runs. -/
theorem startTask (hc : s.current = none) {k : Nat} {d : LoopTimerData}
    {rest : List (Nat × LoopTimerData)} (hm : s.timerMap = (k, d) :: rest)
    (hcb : d.hasCb = false) : LoopInv (s.startTask d rest) := by
  have hlive : (s.startTask d rest).liveHandles = s.liveHandles := by
    rw [liveHandles, liveTimers_startTask hc hm, liveHandles]
  have hcbh : (s.startTask d rest).callbackHandle = s.callbackHandle := by
    rw [callbackHandle_of_task (s := s.startTask d rest) rfl hcb, callbackHandle_of_none hc]
  constructor
  case registered => exact hI.registered
  case fresh =>
    intro k' hk
    rw [hlive]
    exact hI.fresh k' hk
  case nodup => exact hlive ▸ hI.nodup
  case executing =>
    intro k'
    rw [hcbh]
    exact hI.executing k'
  case executed =>
    intro k' hk
    exact hlive ▸ hI.executed k' hk
  case started =>
    intro k'
    rw [hcbh]
    exact hI.started k'
  case cancelled =>
    intro k' hk
    exact hlive ▸ hI.cancelled k' hk
  case isRepeat =>
    intro k' b d' hk hd'
    rw [liveTimers_startTask hc hm] at hd'
    exact hI.isRepeat k' b d' hk hd'
  case once =>
    intro k' hk
    -- the entry taken off `timerMap_` starts no callback
    have hle : (rest.map (·.2.handle)).count k' ≤ s.handles.count k' := by
      rw [handles, hm]
      exact ((List.sublist_cons_self _ rest).map _).count_le k'
    have := hI.once k' hk
    show s.log.count (start k') + (rest.map (·.2.handle)).count k' ≤ 1
    omega

/-- The callback of `d` returns: the timer is no longer the one running. -/
theorem endCallback_facts {d : LoopTimerData} (hc : s.current = some d) (hcb : d.hasCb = true) :
    d.handle ∉ (s.endCallback d).liveHandles ∧ (s.endCallback d).liveHandles.Nodup ∧
    (∀ k, k ∈ (s.endCallback d).liveHandles → k ∈ s.liveHandles) ∧
    ∀ k, (s.endCallback d).log.count (start k) =
      (s.endCallback d).log.count (TimerEvent.finish k) := by
  have hcons : s.liveHandles = d.handle :: (s.endCallback d).liveHandles := by
    simp only [liveHandles, liveTimers_endCallback hc, List.map_cons]
  have hn := hI.nodup
  rw [hcons, List.nodup_cons] at hn
  refine ⟨hn.1, hn.2, fun k hk => by rw [hcons]; exact List.mem_cons_of_mem _ hk, fun k => ?_⟩
  have := hI.started k
  by_cases hk : k = d.handle
  · subst hk
    rw [callbackHandle_of_cb hc hcb, if_pos rfl] at this
    simp [this]
  · have hne : s.callbackHandle ≠ some k := by simp [callbackHandle_of_cb hc hcb, Ne.symm hk]
    simpa [List.count_singleton, Ne.symm hk, hne] using this

/-- After its callback, a timer without repeat is marked `EXECUTED` and is no longer live. -/
theorem endCallback {d : LoopTimerData} (hc : s.current = some d) (hcb : d.hasCb = true) :
    LoopInv (s.endCallback d) := by
  obtain ⟨hnot, hnd, hsub, hst⟩ := hI.endCallback_facts hc hcb
  have hlt : d.handle < s.nextHandle := hI.lt_of_live (by simp [liveHandles, liveTimers, hc])
  have hcur : s.callbackHandle = some d.handle := callbackHandle_of_cb hc hcb
  constructor
  case registered => simp [hI.registered, TimerEvent.registered]
  case fresh =>
    intro k hk
    obtain ⟨hn, hx, hl⟩ := hI.fresh k hk
    have hne : k ≠ d.handle := by simp only [endCallback_nextHandle] at hk; omega
    exact ⟨fun hm => hn (hsub k hm), by simpa [update_of_ne hne] using hx, by simpa using hl⟩
  case nodup => exact hnd
  case executing =>
    intro k
    by_cases hk : k = d.handle
    · subst hk
      simp [callbackHandle]
    · have hx : s.executedHandle k ≠ some .executing := by
        rw [Ne, hI.executing, hcur]
        simp [Ne.symm hk]
      simpa [callbackHandle, update_of_ne hk] using hx
  case executed =>
    intro k hk hm
    by_cases hkd : k = d.handle
    · exact hnot (hkd ▸ hm)
    · exact hI.executed k (by simpa [update_of_ne hkd] using hk) (hsub k hm)
  case started => intro k; simpa [callbackHandle] using hst k
  case cancelled =>
    intro k hk
    obtain ⟨hlt', hn⟩ := hI.cancelled k (by simpa using hk)
    exact ⟨hlt', fun hm => hn (hsub k hm)⟩
  case isRepeat =>
    intro k b d' hk hd'
    refine hI.isRepeat k b d' (by simpa using hk) ?_
    rw [liveTimers_endCallback hc]
    exact List.mem_cons_of_mem _ hd'
  case once =>
    intro k hk
    simpa [handles, List.count_singleton] using hI.once k (by simpa using hk)

/-- After its callback, a repeating timer has its mark erased and is back in `timerMap_`. -/
theorem rearm {d : LoopTimerData} (hc : s.current = some d) (hcb : d.hasCb = true)
    (hrep : d.isRepeat = true) :
    LoopInv (((s.endCallback d).eraseMark d.handle).registerTimerImpl d) := by
  obtain ⟨-, -, -, hst⟩ := hI.endCallback_facts hc hcb
  set t := ((s.endCallback d).eraseMark d.handle).registerTimerImpl d with ht
  have hp : t.liveTimers.Perm s.liveTimers := by
    refine (liveTimers_registerTimerImpl _ d).trans ?_
    rw [liveTimers_endCallback hc]
    rfl
  have hph : t.liveHandles.Perm s.liveHandles := hp.map LoopTimerData.handle
  have hlive : ∀ k, k ∈ t.liveHandles ↔ k ∈ s.liveHandles := fun k => hph.mem_iff
  have hd : d ∈ s.liveTimers := by simp [liveTimers, hc]
  have hlt := hI.lt_of_live (List.mem_map_of_mem (f := (·.handle)) hd)
  have hcur : s.callbackHandle = some d.handle := callbackHandle_of_cb hc hcb
  have hx : ∀ k, k ≠ d.handle → t.executedHandle k = s.executedHandle k := by
    intro k hk
    simp [t, update_of_ne hk]
  have hxd : t.executedHandle d.handle = none := by simp [t]
  constructor
  case registered => simp [t, hI.registered, TimerEvent.registered]
  case fresh =>
    intro k hk
    obtain ⟨hn, hx', hl⟩ := hI.fresh k hk
    have hne : k ≠ d.handle := by simp only [t, registerTimerImpl_nextHandle, eraseMark_nextHandle,
      endCallback_nextHandle] at hk; omega
    exact ⟨fun hm => hn ((hlive k).1 hm), (hx k hne).trans hx', by simpa [t] using hl⟩
  case nodup => exact hph.nodup_iff.2 hI.nodup
  case executing =>
    intro k
    have hnone : t.callbackHandle = none := by simp [t, callbackHandle]
    rw [hnone]
    by_cases hk : k = d.handle
    · subst hk
      simp [hxd]
    · rw [hx k hk, hI.executing, hcur]
      simp [Ne.symm hk]
  case executed =>
    intro k hk hm
    have hne : k ≠ d.handle := by rintro rfl; simp [hxd] at hk
    exact hI.executed k (by rwa [← hx k hne]) ((hlive k).1 hm)
  case started => intro k; simpa [t, callbackHandle] using hst k
  case cancelled =>
    intro k hk
    obtain ⟨hlt', hn⟩ := hI.cancelled k (by simpa [t] using hk)
    exact ⟨by simpa [t] using hlt', fun hm => hn ((hlive k).1 hm)⟩
  case isRepeat =>
    intro k b d' hk hd'
    exact hI.isRepeat k b d' (by simpa [t] using hk) (hp.mem_iff.1 hd')
  case once =>
    intro k hk
    have hk' : register k false ∈ s.log := by simpa [t] using hk
    have hne : k ≠ d.handle := by
      rintro rfl
      simp [hI.isRepeat _ false d hk' hd rfl] at hrep
    have hq := ((Multimap.perm_insert (s.now + d.timeout) d s.timerMap).map
      (·.2.handle)).count_eq k
    simp only [t, handles, registerTimerImpl_timerMap, eraseMark_timerMap, endCallback_timerMap,
      eraseMark_now, endCallback_now, registerTimerImpl_log, eraseMark_log, endCallback_log, hq,
      List.map_cons, List.count_cons]
    simpa [handles, List.count_singleton, Ne.symm hne] using hI.once k hk'

/-- `ProcessTimerDataCb` returns: the timer without callback is no longer live. -/
theorem endTask {d : LoopTimerData} (hc : s.current = some d) (hcb : d.hasCb = false) :
    LoopInv s.endTask := by
  have hcons : s.liveTimers = d :: s.endTask.liveTimers := liveTimers_endTask hc
  have hsubT : ∀ d', d' ∈ s.endTask.liveTimers → d' ∈ s.liveTimers := fun d' hd' => by
    rw [hcons]
    exact List.mem_cons_of_mem _ hd'
  have hsub : ∀ k, k ∈ s.endTask.liveHandles → k ∈ s.liveHandles := fun k hk => by
    obtain ⟨d', hd', rfl⟩ := List.mem_map.1 hk
    exact List.mem_map_of_mem (hsubT d' hd')
  have hcbh : s.endTask.callbackHandle = s.callbackHandle := by
    rw [callbackHandle_of_none (s := s.endTask) rfl, callbackHandle_of_task hc hcb]
  have hn := hI.nodup
  simp only [liveHandles, hcons, List.map_cons, List.nodup_cons] at hn
  constructor
  case registered => exact hI.registered
  case fresh =>
    intro k hk
    obtain ⟨hn', hx, hl⟩ := hI.fresh k hk
    exact ⟨fun hm => hn' (hsub k hm), hx, hl⟩
  case nodup => exact hn.2
  case executing =>
    intro k
    rw [hcbh]
    exact hI.executing k
  case executed => exact fun k hk hm => hI.executed k hk (hsub k hm)
  case started =>
    intro k
    rw [hcbh]
    exact hI.started k
  case cancelled =>
    intro k hk
    obtain ⟨hlt, hn'⟩ := hI.cancelled k hk
    exact ⟨hlt, fun hm => hn' (hsub k hm)⟩
  case isRepeat => exact fun k b d' hk hd' => hI.isRepeat k b d' hk (hsubT d' hd')
  case once => exact hI.once

theorem finishTimerCb {d : LoopTimerData} (hc : s.current = some d) :
    LoopInv (s.finishTimerCb d) := by
  cases hcb : d.hasCb
  · rw [finishTimerCb_of_task s hcb (hI.mark_none_of_task hc hcb)]
    exact hI.endTask hc hcb
  · rw [finishTimerCb_of_cb s hcb]
    split_ifs with hrep
    · exact hI.rearm hc hcb hrep
    · exact hI.endCallback hc hcb

/-- A tick changes nothing `LoopInv` reads. -/
theorem tick : LoopInv s.tick :=
  ⟨hI.registered, hI.fresh, hI.nodup, hI.executing, hI.executed, hI.started, hI.cancelled,
    hI.isRepeat, hI.once⟩

/-- Nor does a caller that starts to spin. -/
theorem spinOn {c : Nat} : LoopInv (s.spinOn c h) :=
  ⟨hI.registered, hI.fresh, hI.nodup, hI.executing, hI.executed, hI.started, hI.cancelled,
    hI.isRepeat, hI.once⟩

/-- `UnregisterTimer(h)` returns `r`; when `r` is `0`, the timer is not live. -/
theorem ret {c : Nat} {r : Int} (hret : r = 0 → h < s.nextHandle ∧ h ∉ s.liveHandles) :
    LoopInv (s.ret c h r) := by
  constructor
  case registered => simp [hI.registered, TimerEvent.registered]
  case fresh =>
    intro k hk
    obtain ⟨hn, hx, hl⟩ := hI.fresh k hk
    exact ⟨hn, hx, by simpa using hl⟩
  case nodup => exact hI.nodup
  case executing => exact hI.executing
  case executed => exact hI.executed
  case started =>
    intro k
    have := hI.started k
    simp only [ret_log, List.count_append, List.count_singleton, beq_iff_eq, reduceCtorEq,
      if_false, add_zero]
    exact this
  case cancelled =>
    intro k hk
    rcases List.mem_append.1 hk with hold | hnew
    · exact hI.cancelled k hold
    · obtain ⟨rfl, rfl⟩ : k = h ∧ (0 : Int) = r := by simpa using hnew
      exact hret rfl
  case isRepeat => intro k b d hk; exact hI.isRepeat k b d (by simpa using hk)
  case once =>
    intro k hk
    have := hI.once k (by simpa using hk)
    simp only [ret_log, List.count_append, List.count_singleton, beq_iff_eq, reduceCtorEq,
      if_false, add_zero]
    exact this

/-- `UnregisterTimer` erases an `EXECUTED` mark. -/
theorem eraseMark (hx : s.executedHandle h = some .executed) : LoopInv (s.eraseMark h) := by
  have hcur : s.callbackHandle ≠ some h := by
    rw [Ne, ← hI.executing, hx]
    simp
  constructor
  case registered => exact hI.registered
  case fresh =>
    intro k hk
    obtain ⟨hn, hx', hl⟩ := hI.fresh k hk
    refine ⟨hn, ?_, hl⟩
    simp only [eraseMark_executedHandle, update_apply]
    split_ifs <;> simp [hx']
  case nodup => exact hI.nodup
  case executing =>
    intro k
    by_cases hk : k = h
    · subst hk
      simpa [callbackHandle] using hcur
    · simpa [update_of_ne hk, callbackHandle] using hI.executing k
  case executed =>
    intro k hk
    have hne : k ≠ h := by rintro rfl; simp at hk
    exact hI.executed k (by simpa [update_of_ne hne] using hk)
  case started => exact hI.started
  case cancelled => exact hI.cancelled
  case isRepeat => exact hI.isRepeat
  case once => exact hI.once

/-- **Erasing entries of `timerMap_` keeps the invariant**: the live timers only shrink. -/
theorem setTimerMap_sublist {m : List (Nat × LoopTimerData)} (hm : m.Sublist s.timerMap) :
    LoopInv (s.setTimerMap m) := by
  have hsubT := liveTimers_setTimerMap hm
  have hsubH : (s.setTimerMap m).liveHandles.Sublist s.liveHandles := hsubT.map _
  have hsub : ∀ k, k ∈ (s.setTimerMap m).liveHandles → k ∈ s.liveHandles :=
    fun k hk => hsubH.subset hk
  constructor
  case registered => exact hI.registered
  case fresh =>
    intro k hk
    obtain ⟨hn, hx, hl⟩ := hI.fresh k hk
    exact ⟨fun hm' => hn (hsub k hm'), hx, hl⟩
  case nodup => exact hsubH.nodup hI.nodup
  case executing => exact hI.executing
  case executed => exact fun k hk hm' => hI.executed k hk (hsub k hm')
  case started => exact hI.started
  case cancelled =>
    intro k hk
    obtain ⟨hlt, hn⟩ := hI.cancelled k hk
    exact ⟨hlt, fun hm' => hn (hsub k hm')⟩
  case isRepeat => exact fun k b d' hk hd' => hI.isRepeat k b d' hk (hsubT.subset hd')
  case once =>
    intro k hk
    have hle : (m.map (·.2.handle)).count k ≤ s.handles.count k := (hm.map _).count_le k
    have := hI.once k hk
    show s.log.count (start k) + (m.map (·.2.handle)).count k ≤ 1
    omega

/-- `UnregisterTimer` erases the entry of `h` from `timerMap_`, after which `h` is not live. -/
theorem setTimerMap {m : List (Nat × LoopTimerData)} (he : eraseHandle h s.timerMap = some m) :
    LoopInv (s.setTimerMap m) ∧ h < s.nextHandle ∧ h ∉ (s.setTimerMap m).liveHandles := by
  obtain ⟨d, hdh, hp⟩ := eraseHandle_perm he
  have hpl : s.liveTimers.Perm (d :: (s.setTimerMap m).liveTimers) := by
    simp only [liveTimers, setTimerMap_current, setTimerMap_timerMap]
    exact (hp.append_left _).trans List.perm_middle
  have hph : s.liveHandles.Perm (h :: (s.setTimerMap m).liveHandles) := by
    simpa [liveHandles, hdh] using hpl.map (·.handle)
  have hn := hph.nodup_iff.1 hI.nodup
  rw [List.nodup_cons] at hn
  exact ⟨hI.setTimerMap_sublist (eraseHandle_sublist he),
    hI.lt_of_live (hph.mem_iff.2 List.mem_cons_self), hn.1⟩

/-- `PollerUnRegisterTimer` erases the entries of its handles. -/
theorem pollerUnRegisterTimer (l : List Nat) : LoopInv (s.pollerUnRegisterTimer l) :=
  hI.setTimerMap_sublist List.filter_sublist

/-- `UnregisterTimer(h)` after its spin. -/
theorem unregister {c : Nat} (hx : s.executedHandle h ≠ some .executing) :
    LoopInv ((s.unregisterTimer h).1.ret c h (s.unregisterTimer h).2) := by
  rcases unregisterTimer_cases s h hx with ⟨hx', he⟩ | ⟨m, -, hm, he⟩ | ⟨-, -, he⟩
  · rw [he]
    exact (hI.eraseMark hx').ret fun _ => ⟨hI.lt_of_mark hx', hI.executed h hx'⟩
  · rw [he]
    obtain ⟨hT, hlt, hn⟩ := hI.setTimerMap hm
    exact hT.ret fun _ => ⟨hlt, hn⟩
  · rw [he]
    exact hI.ret (by simp)

end LoopInv

end LoopPoller

/-! ### Both timer services -/

end Ffrt.Eu

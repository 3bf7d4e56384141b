import Ffrt.Sync.Timer

/-!
# Sync — Timer protocol

What `TimerManager` keeps over every interleaving of registrations, wake-ups, the tasks they
submit, and callers of `UnregisterTimer`.

* `Steps`, `steps_of_step`: what one step can do, guards included.
* `TimerInv`: the handles given are those registered; a handle has at most one wake-up or task
  in flight; a timer whose callback runs is in the map as `EXECUTING`; a timer that
  `UnregisterTimer` returned `0` for is gone; the map keeps the `repeat` a timer was registered
  with.  Every step keeps it (`timerInv_step`).
* `timerLog_of_reach`: the log of every run satisfies `TimerLog`.
* `moves_of_reach`: every step from a reachable state moves each timer along
  `TimerState.Moves`.
-/

namespace Ffrt.Sync

open Function Machine TimerEvent

namespace TimerManager

variable {s t u : TimerManager} {h : Nat}

/-- What one step can do. -/
inductive Steps (s : TimerManager) : TimerManager → Prop
  | register (b : Bool) : Steps s (s.registerTimer b)
  | wake (h : Nat) (hd : h ∈ s.delayed) : Steps s (s.wake h)
  | execute (h : Nat) (hq : h ∈ s.submitted) : Steps s (s.execute h)
  | executed (h : Nat) (hr : h ∈ s.running) : Steps s (s.finishExecute h)
  | invalid (c h : Nat) (hc : s.unregistering c = none) (hh : s.nextHandle ≤ h) :
      Steps s (s.ret c h (-1))
  | unregister (c h : Nat) {u : TimerManager} (hc : s.unregistering c = none)
      (hh : h < s.nextHandle) (hu : s.eraseTimer h = some u) : Steps s (u.ret c h 0)
  | spinOn (c h : Nat) (hc : s.unregistering c = none) (hh : h < s.nextHandle)
      (hu : s.eraseTimer h = none) : Steps s (s.spinOn c h)
  | spinEnd (c h : Nat) {u : TimerManager} (hc : s.unregistering c = some h)
      (hu : s.eraseTimer h = some u) : Steps s (u.ret c h 0)

/-- What holds of every reachable `TimerManager`. -/
structure TimerInv (s : TimerManager) : Prop where
  /-- The handles `RegisterTimer` returned are `0`, …, `nextHandle - 1`, in order. -/
  registered : s.log.filterMap TimerEvent.registered = List.range s.nextHandle
  /-- A handle not given yet is nowhere. -/
  fresh : ∀ h, s.nextHandle ≤ h →
    s.timerMap h = none ∧ h ∉ s.delayed ∧ h ∉ s.submitted ∧ h ∉ s.running ∧ start h ∉ s.log
  /-- A timer has at most one wake-up or task in flight. -/
  inFlight : ∀ h, s.delayed.count h + s.submitted.count h + s.running.count h ≤ 1
  /-- A timer whose callback runs is in the map, `EXECUTING`. -/
  running : ∀ h ∈ s.running, ∃ d, s.timerMap h = some d ∧ d.state = .executing
  /-- The callbacks of `h` that started and have not returned are those running. -/
  started : ∀ h, s.log.count (start h) = s.log.count (TimerEvent.finish h) + s.running.count h
  /-- A timer that `UnregisterTimer` returned `0` for is gone. -/
  cancelled : ∀ h, unregister h 0 ∈ s.log → h < s.nextHandle ∧ s.timerMap h = none
  /-- A spinning caller spins on a handle given. -/
  spinning : ∀ c h, s.unregistering c = some h → h < s.nextHandle
  /-- The map keeps the `repeat` a timer was registered with. -/
  isRepeat : ∀ h b d, register h b ∈ s.log → s.timerMap h = some d → d.isRepeat = b
  /-- A timer registered without repeat has started its callback or has a wake-up or a
  submitted task, once at most. -/
  once : ∀ h, register h false ∈ s.log →
    s.log.count (start h) + s.delayed.count h + s.submitted.count h ≤ 1

namespace TimerInv

variable (hI : TimerInv s)
include hI

theorem lt_of_register {b : Bool} (hm : register h b ∈ s.log) : h < s.nextHandle := by
  have hf : h ∈ s.log.filterMap TimerEvent.registered := List.mem_filterMap.2 ⟨_, hm, rfl⟩
  simpa [hI.registered] using hf

/-- A handle in the map, or with a wake-up or task, has been given. -/
theorem lt_of_mem {l : List Nat} (hl : l = s.delayed ∨ l = s.submitted ∨ l = s.running)
    (hm : h ∈ l) : h < s.nextHandle := by
  by_contra hh
  obtain ⟨-, hd, hq, hr, -⟩ := hI.fresh h (Nat.le_of_not_lt hh)
  rcases hl with rfl | rfl | rfl <;> contradiction

theorem lt_of_timerMap {d : TimerData} (hm : s.timerMap h = some d) : h < s.nextHandle := by
  by_contra hh
  simp [(hI.fresh h (Nat.le_of_not_lt hh)).1] at hm

/-- A handle whose callback runs has one task, so none is left once it is taken out. -/
theorem not_mem_erase_running (hr : h ∈ s.running) : h ∉ s.running.erase h := by
  have hc := hI.inFlight h
  have hpos := List.count_pos_iff.2 hr
  rw [← List.count_pos_iff, List.count_erase_self]
  omega

theorem registerTimer (b : Bool) : TimerInv (s.registerTimer b) := by
  obtain ⟨hm, hd, hq, hr, hl⟩ := hI.fresh s.nextHandle le_rfl
  constructor
  case registered => simp [hI.registered, TimerEvent.registered, List.range_succ]
  case fresh =>
    intro k hk
    simp only [registerTimer_nextHandle] at hk
    have hne : k ≠ s.nextHandle := by omega
    obtain ⟨hm', hd', hq', hr', hl'⟩ := hI.fresh k (by omega)
    simp [hm', hd', hq', hr', hl', hne]
  case inFlight =>
    intro k
    by_cases hk : k = s.nextHandle
    · subst hk
      simp [List.count_eq_zero_of_not_mem, hd, hq, hr]
    · simpa [List.count_singleton, Ne.symm hk] using hI.inFlight k
  case running =>
    intro k hk
    have hne : k ≠ s.nextHandle := fun h => hr (h ▸ hk)
    simpa [update_of_ne hne] using hI.running k hk
  case started => intro k; simpa using hI.started k
  case cancelled =>
    intro k hk
    obtain ⟨hlt, hm'⟩ := hI.cancelled k (by simpa using hk)
    simp [update_of_ne (Nat.ne_of_lt hlt), hm']
    omega
  case spinning => intro c k hk; have := hI.spinning c k hk; simp; omega
  case isRepeat =>
    intro k b' d hk hd'
    rcases List.mem_append.1 hk with hold | hnew
    · have hne : k ≠ s.nextHandle := Nat.ne_of_lt (hI.lt_of_register hold)
      exact hI.isRepeat k b' d hold (by simpa [update_of_ne hne] using hd')
    · obtain ⟨rfl, rfl⟩ : k = s.nextHandle ∧ b' = b := by simpa using hnew
      simp only [registerTimer_timerMap, update_self, Option.some.injEq] at hd'
      rw [← hd']
  case once =>
    intro k hk
    rcases List.mem_append.1 hk with hold | hnew
    · have hne : k ≠ s.nextHandle := Nat.ne_of_lt (hI.lt_of_register hold)
      simpa [List.count_singleton, Ne.symm hne] using hI.once k hold
    · obtain ⟨rfl, -⟩ : k = s.nextHandle ∧ false = b := by simpa using hnew
      simp [List.count_eq_zero_of_not_mem, hd, hq, hl]

theorem wake (hd : h ∈ s.delayed) : TimerInv (s.wake h) := by
  have hlt := hI.lt_of_mem (.inl rfl) hd
  have hpos := List.count_pos_iff.2 hd
  constructor
  case registered => exact hI.registered
  case fresh =>
    intro k hk
    obtain ⟨hm, hd', hq, hr, hl⟩ := hI.fresh k hk
    simp only [wake_timerMap, wake_delayed, wake_submitted, wake_running, wake_log]
    refine ⟨hm, fun hm' => hd' (List.mem_of_mem_erase hm'), ?_, hr, hl⟩
    simp only [wake_nextHandle] at hk
    simpa [show k ≠ h by omega] using hq
  case inFlight =>
    intro k
    have := hI.inFlight k
    by_cases hk : k = h
    · subst hk
      simp only [wake_delayed, wake_submitted, wake_running, List.count_erase_self,
        List.count_append, List.count_singleton_self]
      omega
    · simpa [List.count_erase_of_ne hk, List.count_singleton, Ne.symm hk] using this
  case running => exact hI.running
  case started => exact hI.started
  case cancelled => exact hI.cancelled
  case spinning => exact hI.spinning
  case isRepeat => exact hI.isRepeat
  case once =>
    intro k hk
    have := hI.once k hk
    by_cases hkh : k = h
    · subst hkh
      simp only [wake_log, wake_delayed, wake_submitted, List.count_erase_self,
        List.count_append, List.count_singleton_self]
      omega
    · simpa [List.count_erase_of_ne hkh, List.count_singleton, Ne.symm hkh] using this

/-- A task of a timer no longer in the map ends as it takes the lock. -/
theorem takeTask (hq : h ∈ s.submitted) : TimerInv (s.takeTask h) := by
  have hpos := List.count_pos_iff.2 hq
  constructor
  case registered => exact hI.registered
  case fresh =>
    intro k hk
    obtain ⟨hm, hd, hq', hr, hl⟩ := hI.fresh k hk
    simp only [takeTask_timerMap, takeTask_delayed, takeTask_submitted, takeTask_running,
      takeTask_log]
    exact ⟨hm, hd, fun hm' => hq' (List.mem_of_mem_erase hm'), hr, hl⟩
  case inFlight =>
    intro k
    have := hI.inFlight k
    simp only [takeTask_delayed, takeTask_submitted, takeTask_running, List.count_erase]
    split <;> omega
  case running => exact hI.running
  case started => exact hI.started
  case cancelled => exact hI.cancelled
  case spinning => exact hI.spinning
  case isRepeat => exact hI.isRepeat
  case once =>
    intro k hk
    have := hI.once k hk
    simp only [takeTask_log, takeTask_delayed, takeTask_submitted, List.count_erase]
    split <;> omega

/-- The task of a timer in the map sets it `EXECUTING` and starts its callback. -/
theorem startCallback (hq : h ∈ s.submitted) {d : TimerData} (hm : s.timerMap h = some d) :
    TimerInv ((s.takeTask h).startCallback h d) := by
  have hT := hI.takeTask hq
  have hlt := hI.lt_of_timerMap hm
  have hpos := List.count_pos_iff.2 hq
  constructor
  case registered => simp [List.filterMap_cons, TimerEvent.registered, hI.registered]
  case fresh =>
    intro k hk
    obtain ⟨hm', hd, hq', hr, hl⟩ := hT.fresh k hk
    have hne : k ≠ h := by simp only [startCallback_nextHandle, takeTask_nextHandle] at hk; omega
    simp only [startCallback_timerMap, startCallback_running, startCallback_log,
      List.mem_append, List.mem_singleton, start.injEq]
    exact ⟨by simpa [update_of_ne hne] using hm', hd, hq', by simpa [hne] using hr,
      by simpa [hne] using hl⟩
  case inFlight =>
    intro k
    have := hI.inFlight k
    by_cases hk : k = h
    · subst hk
      simp only [startCallback_delayed, startCallback_submitted, startCallback_running,
        takeTask_delayed, takeTask_submitted, takeTask_running, List.count_erase_self,
        List.count_append, List.count_singleton_self]
      omega
    · simpa [List.count_erase_of_ne hk, List.count_singleton, Ne.symm hk] using this
  case running =>
    intro k hk
    by_cases hkh : k = h
    · subst hkh
      simp
    · have hk' : k ∈ s.running := by simpa [hkh] using hk
      simpa [update_of_ne hkh] using hI.running k hk'
  case started =>
    intro k
    have := hI.started k
    by_cases hk : k = h
    · subst hk
      simp only [startCallback_log, startCallback_running, takeTask_log, takeTask_running,
        List.count_append, List.count_singleton_self, List.count_singleton]
      simp
      omega
    · simpa [List.count_singleton, Ne.symm hk] using this
  case cancelled =>
    intro k hk
    obtain ⟨hlt', hm'⟩ := hI.cancelled k (by simpa using hk)
    have hne : k ≠ h := by rintro rfl; simp [hm] at hm'
    simpa [update_of_ne hne] using ⟨hlt', hm'⟩
  case spinning => exact hI.spinning
  case isRepeat =>
    intro k b d' hk hd'
    have hk' : register k b ∈ s.log := by simpa using hk
    by_cases hkh : k = h
    · subst hkh
      simp only [startCallback_timerMap, update_self, Option.some.injEq] at hd'
      rw [← hd']
      exact hI.isRepeat k b d hk' hm
    · exact hI.isRepeat k b d' hk' (by simpa [update_of_ne hkh] using hd')
  case once =>
    intro k hk
    have := hI.once k (by simpa using hk)
    by_cases hkh : k = h
    · subst hkh
      simp only [startCallback_log, startCallback_delayed, startCallback_submitted, takeTask_log,
        takeTask_delayed, takeTask_submitted, List.count_erase_self, List.count_append,
        List.count_singleton_self]
      omega
    · simpa [List.count_erase_of_ne hkh, List.count_singleton, Ne.symm hkh] using this

theorem execute (hq : h ∈ s.submitted) : TimerInv (s.execute h) := by
  unfold TimerManager.execute
  split
  · exact hI.takeTask hq
  · rename_i d hm
    exact hI.startCallback hq hm

/-- The callback of `h` returns: what holds of the task's state before it re-arms or erases
the timer. -/
theorem endCallback (hr : h ∈ s.running) :
    (∀ k, (s.endCallback h).log.count (start k) =
      (s.endCallback h).log.count (TimerEvent.finish k) + (s.endCallback h).running.count k) ∧
    (∀ k, (s.endCallback h).delayed.count k + (s.endCallback h).submitted.count k +
      (s.endCallback h).running.count k + (if k = h then 1 else 0) ≤ 1) := by
  have hpos := List.count_pos_iff.2 hr
  constructor
  · intro k
    have := hI.started k
    by_cases hk : k = h
    · subst hk
      simp only [endCallback_log, endCallback_running, List.count_append, List.count_erase_self,
        List.count_singleton_self]
      simp
      omega
    · simpa [List.count_erase_of_ne hk, List.count_singleton, Ne.symm hk] using this
  · intro k
    have := hI.inFlight k
    by_cases hk : k = h
    · subst hk
      simp only [endCallback_delayed, endCallback_submitted, endCallback_running,
        List.count_erase_self, if_true]
      omega
    · simpa [List.count_erase_of_ne hk, hk] using this

/-- A repeating timer's task sets `EXECUTED` and arms its wake-up again. -/
theorem rearm (hr : h ∈ s.running) {d : TimerData} (hm : s.timerMap h = some d)
    (hrep : d.isRepeat = true) : TimerInv ((s.endCallback h).rearm h d) := by
  have hlt := hI.lt_of_timerMap hm
  have hnot := hI.not_mem_erase_running hr
  obtain ⟨hst, hfl⟩ := hI.endCallback hr
  constructor
  case registered => simp [List.filterMap_cons, TimerEvent.registered, hI.registered]
  case fresh =>
    intro k hk
    obtain ⟨hm', hd, hq, hr', hl⟩ := hI.fresh k hk
    have hne : k ≠ h := by simp only [rearm_nextHandle, endCallback_nextHandle] at hk; omega
    simp only [rearm_timerMap, rearm_delayed, rearm_submitted, rearm_running, rearm_log,
      endCallback_timerMap, endCallback_delayed, endCallback_submitted, endCallback_running,
      endCallback_log, List.mem_append, List.mem_singleton]
    exact ⟨by simpa [update_of_ne hne] using hm', by simpa [hne] using hd, hq,
      fun hm'' => hr' (List.mem_of_mem_erase hm''), by simpa using hl⟩
  case inFlight =>
    intro k
    have := hfl k
    by_cases hk : k = h
    · subst hk
      simp only [rearm_delayed, rearm_submitted, rearm_running, List.count_append,
        List.count_singleton_self]
      simp only [if_true] at this
      omega
    · simpa [List.count_singleton, Ne.symm hk, hk] using this
  case running =>
    intro k hk
    have hne : k ≠ h := fun e => hnot (e ▸ hk)
    simpa [update_of_ne hne] using hI.running k (List.mem_of_mem_erase hk)
  case started => exact hst
  case cancelled =>
    intro k hk
    obtain ⟨hlt', hm'⟩ := hI.cancelled k (by simpa using hk)
    have hne : k ≠ h := by rintro rfl; simp [hm] at hm'
    simpa [update_of_ne hne] using ⟨hlt', hm'⟩
  case spinning => exact hI.spinning
  case isRepeat =>
    intro k b d' hk hd'
    have hk' : register k b ∈ s.log := by simpa using hk
    by_cases hkh : k = h
    · subst hkh
      simp only [rearm_timerMap, update_self, Option.some.injEq] at hd'
      rw [← hd']
      exact hI.isRepeat k b d hk' hm
    · exact hI.isRepeat k b d' hk' (by simpa [update_of_ne hkh] using hd')
  case once =>
    intro k hk
    have hk' : register k false ∈ s.log := by simpa using hk
    have hne : k ≠ h := by
      rintro rfl
      simp [hI.isRepeat k false d hk' hm] at hrep
    simpa [List.count_singleton, Ne.symm hne] using hI.once k hk'

/-- A timer without repeat is erased after its callback. -/
theorem eraseAfter (hr : h ∈ s.running) {d : TimerData} (hm : s.timerMap h = some d) :
    TimerInv ((s.endCallback h).eraseEntry h) := by
  have hlt := hI.lt_of_timerMap hm
  have hnot := hI.not_mem_erase_running hr
  obtain ⟨hst, hfl⟩ := hI.endCallback hr
  constructor
  case registered => simp [List.filterMap_cons, TimerEvent.registered, hI.registered]
  case fresh =>
    intro k hk
    obtain ⟨hm', hd, hq, hr', hl⟩ := hI.fresh k hk
    have hne : k ≠ h := by
      simp only [eraseEntry_nextHandle, endCallback_nextHandle] at hk; omega
    simp only [eraseEntry_timerMap, eraseEntry_delayed, eraseEntry_submitted, eraseEntry_running,
      eraseEntry_log, endCallback_timerMap, endCallback_delayed, endCallback_submitted,
      endCallback_running, endCallback_log, List.mem_append, List.mem_singleton]
    exact ⟨by simpa [update_of_ne hne] using hm', hd, hq,
      fun hm'' => hr' (List.mem_of_mem_erase hm''), by simpa using hl⟩
  case inFlight =>
    intro k
    have := hfl k
    simp only [eraseEntry_delayed, eraseEntry_submitted, eraseEntry_running]
    split at this <;> omega
  case running =>
    intro k hk
    have hne : k ≠ h := fun e => hnot (e ▸ hk)
    simpa [update_of_ne hne] using hI.running k (List.mem_of_mem_erase hk)
  case started => exact hst
  case cancelled =>
    intro k hk
    obtain ⟨hlt', hm'⟩ := hI.cancelled k (by simpa using hk)
    by_cases hkh : k = h
    · subst hkh
      simp [hlt']
    · simpa [update_of_ne hkh] using ⟨hlt', hm'⟩
  case spinning => exact hI.spinning
  case isRepeat =>
    intro k b d' hk hd'
    have hkh : k ≠ h := by rintro rfl; simp at hd'
    exact hI.isRepeat k b d' (by simpa using hk) (by simpa [update_of_ne hkh] using hd')
  case once =>
    intro k hk
    simpa [List.count_singleton] using hI.once k (by simpa using hk)

theorem finishExecute (hr : h ∈ s.running) : TimerInv (s.finishExecute h) := by
  obtain ⟨d, hm, -⟩ := hI.running h hr
  unfold TimerManager.finishExecute
  rw [hm]
  dsimp only
  split_ifs with hrep
  · exact hI.rearm hr hm hrep
  · exact hI.eraseAfter hr hm

/-- `UnregisterTimer` erases a timer whose callback does not run. -/
theorem eraseEntry (hr : h ∉ s.running) : TimerInv (s.eraseEntry h) := by
  constructor
  case registered => exact hI.registered
  case fresh =>
    intro k hk
    obtain ⟨hm, hrest⟩ := hI.fresh k hk
    refine ⟨?_, hrest⟩
    simp only [eraseEntry_timerMap, update_apply]
    split_ifs <;> simp [hm]
  case inFlight => exact hI.inFlight
  case running =>
    intro k hk
    have hne : k ≠ h := fun e => hr (e ▸ hk)
    simpa [update_of_ne hne] using hI.running k hk
  case started => exact hI.started
  case cancelled =>
    intro k hk
    obtain ⟨hlt, hm⟩ := hI.cancelled k hk
    refine ⟨hlt, ?_⟩
    simp only [eraseEntry_timerMap, update_apply]
    split_ifs <;> simp [hm]
  case spinning => exact hI.spinning
  case isRepeat =>
    intro k b d hk hd
    have hkh : k ≠ h := by rintro rfl; simp at hd
    exact hI.isRepeat k b d hk (by simpa [update_of_ne hkh] using hd)
  case once => exact hI.once

/-- `UnregisterTimer(h)` returns `r`; when `r` is `0`, the timer is gone. -/
theorem ret {c : Nat} {r : Int} (hret : r = 0 → h < s.nextHandle ∧ s.timerMap h = none) :
    TimerInv (s.ret c h r) := by
  constructor
  case registered => simp [List.filterMap_cons, TimerEvent.registered, hI.registered]
  case fresh => intro k hk; simpa using hI.fresh k hk
  case inFlight => exact hI.inFlight
  case running => exact hI.running
  case started => intro k; simpa using hI.started k
  case cancelled =>
    intro k hk
    rcases List.mem_append.1 hk with hold | hnew
    · exact hI.cancelled k hold
    · obtain ⟨rfl, rfl⟩ : k = h ∧ (0 : Int) = r := by simpa using hnew
      exact hret rfl
  case spinning =>
    intro c' k hk
    by_cases hc : c' = c
    · subst hc
      simp at hk
    · exact hI.spinning c' k (by simpa [update_of_ne hc] using hk)
  case isRepeat => intro k b d hk; exact hI.isRepeat k b d (by simpa using hk)
  case once => intro k hk; simpa using hI.once k (by simpa using hk)

/-- `UnregisterTimer(h)` finds the timer `EXECUTING` and spins. -/
theorem spinOn {c : Nat} (hh : h < s.nextHandle) : TimerInv (s.spinOn c h) where
  registered := hI.registered
  fresh := hI.fresh
  inFlight := hI.inFlight
  running := hI.running
  started := hI.started
  cancelled := hI.cancelled
  spinning c' k hk := by
    by_cases hc : c' = c
    · subst hc
      simp only [spinOn_unregistering, update_self, Option.some.injEq] at hk
      exact hk ▸ hh
    · exact hI.spinning c' k (by simpa [update_of_ne hc] using hk)
  isRepeat := hI.isRepeat
  once := hI.once

end TimerInv

end TimerManager

end Ffrt.Sync

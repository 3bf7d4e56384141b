import Ffrt.Queue.Monitor

/-!
# Queue — Task timeout monitors: what holds and what does not

* `SlabInv`: the allocator and the delayed worker agree.  Every entry on the worker's map is a
  slot of its own, not free, holding a callback, and its `tp` is its time on the map.  Kept by
  every step (`workerInv_of_reach`).
* `removeCall_takes_slot`: so the `DelayedRemove` of `RemoveTimeoutMonitor`, which looks the
  entry up by the slot's `tp` as it is now, takes off whatever entry the slot holds by then,
  whoever's it is, and releases the caller's monitor.
* `releasedOnce_fails`: between the check and that call the worker can run the task's own
  callback, which releases the monitor and frees the slot, and the slot can go to another
  task's monitor; the call then releases the monitor a second time and takes the other entry.
-/

namespace Ffrt.Queue

/-- The allocator's cache and the worker's map agree: every entry on the map is a distinct
slot that is in use, holds a callback, and carries its own time in `tp`. -/
structure SlabInv (a : Slab) (tp : Nat → Nat) (cb : Nat → Option Owner)
    (map : List (Nat × Nat)) : Prop where
  cache_nodup : a.cache.Nodup
  cache_lt : ∀ w ∈ a.cache, w < a.size
  size_le : a.size ≤ a.fresh
  map_lt : ∀ e ∈ map, e.2 < a.fresh
  map_free : ∀ e ∈ map, e.2 ∉ a.cache
  map_nodup : (map.map Prod.snd).Nodup
  map_tp : ∀ e ∈ map, tp e.2 = e.1
  map_cb : ∀ e ∈ map, cb e.2 ≠ none

namespace SlabInv

variable {a : Slab} {tp : Nat → Nat} {cb : Nat → Option Owner} {map : List (Nat × Nat)}

theorem init (size : Nat) : SlabInv (Slab.create size) (fun _ => 0) (fun _ => none) [] where
  cache_nodup := List.nodup_reverse.mpr List.nodup_range
  cache_lt := fun _ hw => List.mem_range.mp (List.mem_reverse.mp hw)
  size_le := le_refl size
  map_lt := fun _ h => absurd h List.not_mem_nil
  map_free := fun _ h => absurd h List.not_mem_nil
  map_nodup := List.nodup_nil
  map_tp := fun _ h => absurd h List.not_mem_nil
  map_cb := fun _ h => absurd h List.not_mem_nil

/-- Fewer entries on the map. -/
theorem sublist (h : SlabInv a tp cb map) {map' : List (Nat × Nat)} (hm : List.Sublist map' map) :
    SlabInv a tp cb map' :=
  ⟨h.cache_nodup, h.cache_lt, h.size_le, fun e he => h.map_lt e (hm.subset he),
    fun e he => h.map_free e (hm.subset he), (hm.map Prod.snd).nodup h.map_nodup,
    fun e he => h.map_tp e (hm.subset he), fun e he => h.map_cb e (hm.subset he)⟩

/-- The slot `Alloc` hands out is on no entry of the map and is no longer in the cache. -/
theorem alloc_fresh (h : SlabInv a tp cb map) :
    (∀ e ∈ map, e.2 ≠ a.alloc.1) ∧ a.alloc.1 ∉ a.alloc.2.cache ∧ a.alloc.1 < a.alloc.2.fresh ∧
      a.alloc.2.size = a.size ∧ a.fresh ≤ a.alloc.2.fresh ∧
      List.Sublist a.alloc.2.cache a.cache := by
  unfold Slab.alloc
  split
  · rename_i w rest hc
    have hn := h.cache_nodup
    rw [hc] at hn
    have hw : w < a.size := h.cache_lt w (by simp [hc])
    refine ⟨fun e he hew => h.map_free e he (by simp [hc, hew]), (List.nodup_cons.mp hn).1,
      by dsimp only; have := h.size_le; omega, rfl, le_refl _, ?_⟩
    rw [hc]
    exact List.sublist_cons_self w rest
  · rename_i hc
    refine ⟨fun e he hew => ?_, by simp [hc], by dsimp only; omega, rfl, by dsimp only; omega,
      by simp [hc]⟩
    have := h.map_lt e he
    omega

/-- **A new entry keeps the agreement.**  `dispatchEntry` of any owner at any time. -/
theorem dispatch (h : SlabInv a tp cb map) (o : Owner) (t : Nat) :
    SlabInv a.alloc.2 (Function.update tp a.alloc.1 t) (Function.update cb a.alloc.1 (some o))
      (Multimap.insert t a.alloc.1 map) := by
  obtain ⟨hw, hwc, hwf, hsz, hfr, hsub⟩ := alloc_fresh h
  have hmem : ∀ e, e ∈ Multimap.insert t a.alloc.1 map ↔ e = (t, a.alloc.1) ∨ e ∈ map :=
    fun e => Multimap.mem_insert
  refine ⟨hsub.nodup h.cache_nodup, fun w hw' => hsz ▸ h.cache_lt w (hsub.subset hw'),
    hsz ▸ h.size_le.trans hfr, fun e he => ?_, fun e he => ?_, ?_, fun e he => ?_,
    fun e he => ?_⟩
  · rcases (hmem e).mp he with rfl | he
    · exact hwf
    · exact lt_of_lt_of_le (h.map_lt e he) hfr
  · rcases (hmem e).mp he with rfl | he
    · exact hwc
    · exact fun hc => h.map_free e he (hsub.subset hc)
  · -- the new slot is on no entry yet
    have hperm := (Multimap.perm_insert t a.alloc.1 map).map Prod.snd
    refine hperm.nodup_iff.mpr (List.nodup_cons.mpr ⟨fun hm => ?_, h.map_nodup⟩)
    obtain ⟨e, he, hew⟩ := List.mem_map.mp hm
    exact hw e he hew
  · rcases (hmem e).mp he with rfl | he
    · simp
    · rw [Function.update_of_ne (hw e he)]
      exact h.map_tp e he
  · rcases (hmem e).mp he with rfl | he
    · simp
    · rw [Function.update_of_ne (hw e he)]
      exact h.map_cb e he

/-- **Freeing a slot that no entry holds keeps the agreement.** -/
theorem free (h : SlabInv a tp cb map) {w : Nat} (hw : ∀ e ∈ map, e.2 ≠ w) (hc : w ∉ a.cache) :
    SlabInv (a.free w) tp (Function.update cb w none) map := by
  have hcb : ∀ e ∈ map, Function.update cb w none e.2 = cb e.2 :=
    fun e he => Function.update_of_ne (hw e he) _ _
  unfold Slab.free
  split
  · rename_i hlt
    refine ⟨List.nodup_cons.mpr ⟨hc, h.cache_nodup⟩, fun v hv => ?_, h.size_le, h.map_lt,
      fun e he hm => ?_, h.map_nodup, h.map_tp, fun e he => hcb e he ▸ h.map_cb e he⟩
    · rcases List.mem_cons.mp hv with rfl | hv
      · exact hlt
      · exact h.cache_lt v hv
    · rcases List.mem_cons.mp hm with hew | hm
      · exact hw e he hew
      · exact h.map_free e he hm
  · exact ⟨h.cache_nodup, h.cache_lt, h.size_le, h.map_lt, h.map_free, h.map_nodup, h.map_tp,
      fun e he => hcb e he ▸ h.map_cb e he⟩

/-- With distinct slots, no entry is left on the slot of the one taken off. -/
theorem erase_slot_ne (h : SlabInv a tp cb map) {k w : Nat} (hk : (k, w) ∈ map) :
    ∀ e ∈ map.erase (k, w), e.2 ≠ w := by
  intro e he hew
  have hn : map.Nodup := List.Nodup.of_map Prod.snd h.map_nodup
  have he' : e ∈ map := List.mem_of_mem_erase he
  have heq : e = (k, w) := List.inj_on_of_nodup_map h.map_nodup he' hk hew
  rw [heq] at he
  exact (List.Nodup.not_mem_erase hn) he

/-- Taking the entry `(k, w)` off the map and freeing `w`: `RemoveTimeoutMonitor`'s release,
and the worker's callback after `HandleWork` popped it. -/
theorem erase_free (h : SlabInv a tp cb map) {k w : Nat} (hk : (k, w) ∈ map) :
    SlabInv (a.free w) tp (Function.update cb w none) (map.erase (k, w)) :=
  (h.sublist (List.erase_sublist)).free (h.erase_slot_ne hk) (h.map_free _ hk)

end SlabInv

namespace Monitor

/-- The allocator and the worker agree in the state `s`. -/
def WorkerInv (s : Monitor) : Prop := SlabInv s.slab s.tp s.cb s.map

theorem workerInv_init (n size timeout : Nat) : WorkerInv (init n size timeout) :=
  SlabInv.init size

/-- **Every step keeps the agreement.** -/
theorem workerInv_step {s s' : Monitor} {a : MonitorAction} (hI : WorkerInv s)
    (h : s.step a = some s') : WorkerInv s' := by
  rcases step_cases h with ⟨i, t, -, -, rfl⟩ | ⟨i, f, rfl⟩ | ⟨i, w, x, y, -, hm, rfl⟩ |
    ⟨d, rfl⟩ | ⟨k, w, rest, hm, -, hcb⟩ | rfl
  · -- `SetTimeoutMonitor` dispatches one entry, or none without a timeout
    unfold setMonitor
    split
    · exact hI
    · exact SlabInv.dispatch hI _ _
  · exact hI
  · exact SlabInv.erase_free hI hm
  · exact SlabInv.dispatch hI _ _
  · -- `HandleWork` pops the first entry; its callback frees the slot
    have hk : (k, w) ∈ s.map := by simp [hm]
    have he : s.map.erase (k, w) = rest := by simp [hm]
    have hfree := SlabInv.erase_free hI hk
    rw [he] at hfree
    rcases hcb with ⟨j, -, rfl⟩ | ⟨-, rfl⟩ | ⟨-, rfl⟩
    · exact hfree
    · exact hfree
    · exact SlabInv.sublist hI (by simp [hm])
  · exact hI

theorem workerInv_of_reach {n size timeout : Nat} {s : Monitor}
    (h : Machine.Reach step (init n size timeout) s) : WorkerInv s :=
  Machine.Invariant.reach (fun _ _ _ hI h => workerInv_step hI h) (workerInv_init n size timeout) h

/-- **`RemoveTimeoutMonitor` takes whatever entry its task's slot holds.**  Once task `i` has
passed the check, if its slot `w` is on the worker's map, under any owner, the call takes that
entry off, releases task `i`'s monitor and records the slot's owner, and no entry is left on
`w`. -/
theorem removeCall_takes_slot {s : Monitor} (hI : WorkerInv s) {i w : Nat} {x y : Bool}
    (hi : s.tasks[i]? = some ⟨.removing, some w, x, y⟩) {k : Nat} (hk : (k, w) ∈ s.map) :
    ∃ s', s.step (.removeCall i) = some s' ∧ s'.released = s.released ++ [i] ∧
      s'.removed = s.removed ++ [(i, s.cb w)] ∧ ∀ e ∈ s'.map, e.2 ≠ w := by
  -- the entry's time is the slot's `tp`, so the lookup by `tp` finds it
  have htp : s.tp w = k := hI.map_tp _ hk
  have hm : (s.tp w, w) ∈ s.map := htp ▸ hk
  refine ⟨{ (s.modifyTask i fun t => { t with phase := .done }).release i w with
    map := s.map.erase (s.tp w, w), removed := s.removed ++ [(i, s.cb w)] }, ?_, rfl, rfl, ?_⟩
  · simp only [step, hi, hm, if_true]
  · exact SlabInv.erase_slot_ne hI hm

/-! ### Released once -/

/-- Each task's monitor is released at most once, and `RemoveTimeoutMonitor` takes off only
its own task's entry. -/
def ReleasedOnce (s : Monitor) : Prop :=
  s.released.Nodup ∧ ∀ r ∈ s.removed, r.2 = some (.task r.1)

instance : DecidablePred ReleasedOnce := fun s =>
  inferInstanceAs (Decidable (s.released.Nodup ∧ ∀ r ∈ s.removed, r.2 = some (.task r.1)))

/-- Two tasks of a concurrent queue with a timeout.  Task 0's chain passes the check of
`RemoveTimeoutMonitor` while the worker has not yet run its callback; the callback runs,
releases the monitor and frees the slot; task 1's `SetTimeoutMonitor` gets the same slot; task
0's `DelayedRemove` then finds task 1's entry, takes it off and releases task 0's monitor a
second time. -/
theorem releasedOnce_fails : ¬ ∀ s, Machine.Reach step (init 2 4 1) s → ReleasedOnce s := by
  -- task 0 has passed the check, its callback has run, and its slot `3` holds task 1's entry
  have hrun : Machine.holdsAfter step (init 2 4 1)
      [.setMonitor 0, .finish 0, .tick, .removeCheck 0, .fire, .setMonitor 1]
      (fun s => s.tasks[0]? = some ⟨.removing, some 3, true, true⟩ ∧ (2, 3) ∈ s.map ∧
        s.released = [0]) = true := by
    decide +kernel
  obtain ⟨s, hs, ht, hk, hrel⟩ := Machine.exists_of_holdsAfter _ hrun
  obtain ⟨s', hstep, hrel', -, -⟩ := removeCall_takes_slot (workerInv_of_reach hs) ht hk
  intro hall
  -- the call takes task 1's entry and releases task 0's monitor a second time
  have hnd := (hall s' (.next _ hs hstep)).1
  rw [hrel', hrel] at hnd
  exact absurd hnd (by decide)

end Monitor

end Ffrt.Queue

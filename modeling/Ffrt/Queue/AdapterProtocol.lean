import Ffrt.Queue.Adapter

/-!
# Queue — Event handler adapter protocol

What the adapter's chain and flags keep over every interleaving, and where a task is left.

* `AdapterInv`: at most one chain; a queue that is not exiting is active exactly when its chain
  is there; an exiting queue holds nothing; a task in one of the maps `0` to
  `ffrt_queue_priority_idle` keeps the queue active.  `adapterInv_of_reach`.
* `Pull` decides that the queue is empty by those four maps: it clears `isActiveState_` and
  ends the chain when they are empty, whatever the fifth holds.
* `noTaskStranded_fails`: so a task of priority `ffrt_inner_queue_priority_idle` can be left in
  the fifth map of an inactive queue, with no chain to pull it.
-/

namespace Ffrt.Queue

namespace AdapterQueue

/-- A removal keeps a queue that is not exiting active if it was. -/
theorem Shrinks.not_exit {q q' : AdapterQueue} (h : Shrinks q q') (hx : q'.isExit = false) :
    q.isExit = false := by
  cases hq : q.isExit
  · rfl
  · rw [h.exit_of hq] at hx
    cases hx

end AdapterQueue

namespace Adapter

/-- The chain and the flags agree, and the maps `Pull` looks at keep the queue active. -/
structure AdapterInv (s : Adapter) : Prop where
  le_one : s.chains.length ≤ 1
  active : s.queue.isExit = false → (s.queue.isActiveState = true ↔ s.chains ≠ [])
  exit : s.queue.isExit = true → ∀ p, s.queue.whenMapVec p = []
  covered : s.queue.isExit = false →
    (∃ p : Fin 5, p.val ≤ queuePriorityIdle ∧ s.queue.whenMapVec p ≠ []) →
      s.queue.isActiveState = true

theorem adapterInv_init (name : String) (qos : Int) : AdapterInv (init name qos) := by
  refine ⟨by simp [init], fun _ => ?_, fun h => ?_, fun _ ⟨p, _, hp⟩ => absurd rfl hp⟩
  · simp [init, AdapterQueue.create]
  · simp [init, AdapterQueue.create] at h

/-- The one chain, when a step names it. -/
theorem eraseIdx_eq_nil {cs : List AChain} {i : Nat} {c : AChain} (hl : cs.length ≤ 1)
    (hc : cs[i]? = some c) : cs.eraseIdx i = [] := by
  have hi : i < cs.length := (List.getElem?_eq_some_iff.mp hc).1
  apply List.eq_nil_of_length_eq_zero
  rw [List.length_eraseIdx_of_lt hi]
  omega

theorem ne_nil_of_get {cs : List AChain} {i : Nat} {c : AChain} (hc : cs[i]? = some c) :
    cs ≠ [] := by
  rintro rfl
  cases hc

/-- A step that only moves the chain at `i` keeps the invariant. -/
theorem AdapterInv.set {s : Adapter} (hI : AdapterInv s) {i : Nat} {c d : AChain}
    (hc : s.chains[i]? = some c) : AdapterInv { s with chains := s.chains.set i d } := by
  have hne := ne_nil_of_get hc
  refine ⟨by simpa using hI.le_one, fun hx => ?_, hI.exit, hI.covered⟩
  simpa [hne] using hI.active hx

/-- The active flag of a queue whose chain is there, when it is not exiting. -/
theorem AdapterInv.active_of_get {s : Adapter} (hI : AdapterInv s) {i : Nat} {c : AChain}
    (hc : s.chains[i]? = some c) (hx : s.queue.isExit = false) : s.queue.isActiveState = true :=
  (hI.active hx).mpr (ne_nil_of_get hc)

/-- **The invariant is kept by every step.** -/
theorem adapterInv_step {s s' : Adapter} {a : AdapterAction} (hI : AdapterInv s)
    (h : s.step a = some s') : AdapterInv s' := by
  rcases step_cases h with ⟨th, attr, -, -, rfl⟩ | ⟨i, c, c', hc, -, -, rfl⟩ |
    ⟨i, th, t, hc, rfl⟩ | ⟨i, t, hc, rfl⟩ | ⟨i, q, hc, hp, rfl⟩ | ⟨i, q, t, hc, hp, rfl⟩ |
    ⟨q, hq, rfl⟩ | rfl
  · -- submit, by what `Push` answered
    rcases submit_cases s th attr with ⟨-, he⟩ | ⟨hx, ha, he⟩ | ⟨hx, ha, he⟩ <;> rw [he]
    · exact ⟨hI.le_one, hI.active, hI.exit, hI.covered⟩
    · -- an inactive queue has no chain: the new one is the only one
      have h₀ : s.chains = [] := by
        by_contra hne
        rw [(hI.active hx).mpr hne] at ha
        cases ha
      refine ⟨by simp [h₀], fun _ => by simp, fun h => ?_, fun _ _ => rfl⟩
      simp [hx] at h
    · exact ⟨hI.le_one, fun _ => hI.active hx, fun h => by simp [hx] at h, fun _ _ => ha⟩
  · exact hI.set hc
  · -- the chain is there, so `Push` files the task
    have hI' := hI.set (d := .transferInit th) hc
    rcases s.queue.push_cases t with ⟨-, hp⟩ | ⟨hx, ha, -⟩ | ⟨hx, ha, hp⟩
    · rw [hp]
      exact hI'
    · rw [hI.active_of_get hc hx] at ha
      cases ha
    · rw [hp]
      exact ⟨hI'.le_one, fun _ => hI'.active hx, fun h => by simp [hx] at h, fun _ _ => ha⟩
  · have hI' := hI.set (d := .deliver) hc
    exact ⟨hI'.le_one, hI'.active, hI'.exit, hI'.covered⟩
  · -- `Pull` ends the chain
    have hnil := eraseIdx_eq_nil hI.le_one hc
    rcases s.queue.pull_cases hp with ⟨hs, rfl, -⟩ | ⟨hx, rfl, -⟩ | ⟨-, _, _, _, _, -, hr, -⟩
    · -- the maps `Pull` looks at are empty, and the queue goes inactive
      have hm := getWhenMapVecStats_eq_none_iff.mp hs
      refine ⟨by simp [hnil], fun _ => by simp [hnil], hI.exit, fun _ ⟨p, hp, hne⟩ => ?_⟩
      exact absurd (hm p hp) hne
    · refine ⟨by simp [hnil], fun h => ?_, hI.exit, fun h => ?_⟩
      · rw [hx] at h
        cases h
      · rw [hx] at h
        cases h
    · cases hr
  · -- `Pull` hands the chain the head of a map
    rcases s.queue.pull_cases hp with ⟨-, -, hr⟩ | ⟨-, -, hr⟩ | ⟨hx, p, e, rest, cnt, -, -, rfl⟩
    · cases hr
    · cases hr
    · have ha := hI.active_of_get hc hx
      have hI' := hI.set (d := .ready t) hc
      exact ⟨hI'.le_one, fun _ => by simpa [ha] using ne_nil_of_get hc,
        fun h => by simp [hx] at h, fun _ _ => ha⟩
  · -- a removal keeps the flags and only empties maps
    refine ⟨hI.le_one, fun hx => ?_, fun hx => ?_, fun hx ⟨p, hp, hne⟩ => ?_⟩
    · rw [hq.active]
      exact hI.active (hq.not_exit hx)
    · rcases hq.exit hx with hx₀ | hclear
      · exact fun p => List.eq_nil_of_sublist_nil (hI.exit hx₀ p ▸ hq.maps p)
      · exact hclear
    · rw [hq.active]
      refine hI.covered (hq.not_exit hx) ⟨p, hp, fun h₀ => hne ?_⟩
      exact List.eq_nil_of_sublist_nil (h₀ ▸ hq.maps p)
  · exact ⟨hI.le_one, hI.active, hI.exit, hI.covered⟩

theorem adapterInv_of_reach {name : String} {qos : Int} {s : Adapter}
    (h : Machine.Reach step (init name qos) s) : AdapterInv s :=
  Machine.Invariant.reach (fun _ _ _ hI h => adapterInv_step hI h) (adapterInv_init name qos) h

/-- After two submits the chain runs the first task and the second waits in map `2`. -/
theorem adapterInv_of_reach_running :
    ∃ s, Machine.Reach step (init "h" 2) s ∧ s.chains.length = 1 ∧
      s.queue.whenMapVec 2 ≠ [] ∧ AdapterInv s := by
  have hrun : Machine.holdsAfter step (init "h" 2) [.submit 0 plainAttr, .submit 1 plainAttr]
      (fun s => s.chains.length = 1 ∧ s.queue.whenMapVec 2 ≠ []) = true := by
    decide +kernel
  obtain ⟨s, hs, hc, hq⟩ := Machine.exists_of_holdsAfter _ hrun
  exact ⟨s, hs, hc, hq, adapterInv_of_reach hs⟩

/-! ### The idle map -/

/-- A task in any of the five maps of a queue that is not exiting keeps the queue active, so
that its chain will pull it. -/
def NoTaskStranded (s : Adapter) : Prop :=
  s.queue.isExit = false → (∃ p, s.queue.whenMapVec p ≠ []) → s.queue.isActiveState = true

instance : DecidablePred NoTaskStranded := fun s =>
  inferInstanceAs (Decidable (s.queue.isExit = false → (∃ p, s.queue.whenMapVec p ≠ []) →
    s.queue.isActiveState = true))

/-- A task of priority `ffrt_task_attr_set_queue_priority` admits as `ffrt_queue_priority_idle + 1`
goes to the fifth map while the chain runs the first task; the chain's `Pull` finds the first
four maps empty, clears `isActiveState_` and ends, and the task is left. -/
theorem noTaskStranded_fails :
    ¬ ∀ s, Machine.Reach step (init "h" 2) s → NoTaskStranded s :=
  Machine.not_always_of_failsAfter
    [.submit 1 plainAttr, .submit 2 (setQueuePriority plainAttr 4), .transfer 0, .exec 0, .pull 0]
    (by decide +kernel)

end Adapter

end Ffrt.Queue

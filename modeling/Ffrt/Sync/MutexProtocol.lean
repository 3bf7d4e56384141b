import Ffrt.Sync.Mutex

/-!
# Sync — Mutex protocol

What `mutexPrivate` keeps over every interleaving of its callers, and what a spurious wake-up
of a thread waiter breaks.

* `MutexInv`: one holder at most, and `l` is `UNLOCK` exactly when there is none.  Every step
  keeps it, spurious wake-ups included (`mutualExclusion`).
* `WaitInv`: the list holds exactly the blocked callers, each once; `NoLostWakeup`: a blocked
  caller is never left while nothing will take the mutex.  Every step but a spurious wake-up
  keeps them, so on runs without one the list is sound (`waitListSound_of_noSpurious`).
* `waitListSound_fails`: with a spurious wake-up, the waiter's node stays on the list while
  its caller goes back to `l.exchange(WAIT)`; when it waits again, `PushBack` links the node a
  second time, and `next` from the head visits it over and over (`waitLock_relinks_self`).
* `noLostWakeup_fails`: `wake()` then keeps popping the stale node, and a waiter pushed behind
  it stays blocked while the mutex is free.
-/

namespace Ffrt.Sync

open Intrusive

namespace Mutex

variable {C : Callers} {s : Mutex} {a : MutexAction}

/-! ### Callers that take no part -/

/-- Every caller past the `n` stays idle. -/
def CallerInv (C : Callers) (s : Mutex) : Prop := ∀ c, C.n ≤ c → s.pc c = .idle

/-- A step moves its own caller, and another only from `blocked` to the `while` loop. -/
theorem exec_pc_other (s : Mutex) (a : MutexAction) {e : Nat} (he : e ≠ a.caller) :
    (s.exec a).pc e = s.pc e ∨ (s.pc e = .blocked ∧ (s.exec a).pc e = .xchg) := by
  cases a with
  | wake c =>
      change e ≠ c at he
      rcases wake_cases s c with ⟨-, hw⟩ | ⟨d, L, -, hw⟩
      · simp [exec, hw, he]
      · -- `notify` moves `d` only when it is blocked
        simp only [exec, hw, notify]
        split_ifs with hb
        · by_cases hd : e = d
          · subst hd
            have hb' : s.pc e = .blocked := by simpa [he] using hb
            exact .inr ⟨hb', by simp⟩
          · simp [hd, he]
        · simp [he]
  | spurious c =>
      change e ≠ c at he
      simp [exec, he]
  | lock c | tryLock c | load c | exchange c | waitLock c | unlock c =>
      change e ≠ c at he
      simp only [exec, lock, tryLock, load, exchange, waitLock, unlock]
      split_ifs <;> simp [he]

theorem callerInv_init (C : Callers) : CallerInv C init := fun _ _ => rfl

/-- A caller that is anywhere but idle is one of the `n`. -/
theorem CallerInv.lt (hC : CallerInv C s) {c : Nat} {p : Pc} (hc : s.pc c = p)
    (hp : p ≠ .idle) : c < C.n :=
  Nat.lt_of_not_le fun hn => hp (hc ▸ hC c hn)

theorem callerInv_step (hI : CallerInv C s) (he : Enabled C s a) : CallerInv C (s.exec a) := by
  intro e hn
  have hne : e ≠ a.caller := fun h => absurd he.1 (by omega)
  rcases exec_pc_other s a hne with h | ⟨hb, -⟩
  · rw [h]
    exact hI e hn
  · rw [hI e hn] at hb
    cases hb

/-! ### Mutual exclusion -/

/-- At most one caller holds the mutex, and `l` is `UNLOCK` exactly when none does. -/
structure MutexInv (s : Mutex) : Prop where
  excl : ∀ c d, s.pc c = .holding → s.pc d = .holding → c = d
  held : s.l ≠ .unlock ↔ ∃ c, s.pc c = .holding

namespace MutexInv

theorem init : MutexInv Mutex.init :=
  ⟨fun _ _ h => (by simp [Mutex.init] at h), by simp [Mutex.init]⟩

/-- Moving a caller that neither held the mutex nor takes it keeps the holders. -/
theorem holding_setPc {c d : Nat} {p : Pc} (hc : s.pc c ≠ .holding) (hp : p ≠ .holding) :
    (s.setPc c p).pc d = .holding ↔ s.pc d = .holding := by
  by_cases hd : d = c
  · subst hd
    simp [hc, hp]
  · simp [hd]

theorem setPc (hI : MutexInv s) {c : Nat} {p : Pc} (hc : s.pc c ≠ .holding)
    (hp : p ≠ .holding) : MutexInv (s.setPc c p) where
  excl d e hd he := hI.excl d e ((holding_setPc hc hp).mp hd) ((holding_setPc hc hp).mp he)
  held := by simpa only [setPc_l, holding_setPc hc hp] using hI.held

/-- `l` may change between values other than `UNLOCK`. -/
theorem withL (hI : MutexInv s) {l : LockWord} (hs : s.l ≠ .unlock) (hl : l ≠ .unlock) :
    MutexInv { s with l := l } :=
  ⟨hI.excl, ⟨fun _ => hI.held.mp hs, fun _ => hl⟩⟩

/-- The caller whose atomic operation found `UNLOCK` takes the mutex. -/
theorem acquire (hI : MutexInv s) {c : Nat} {l : LockWord} (hu : s.l = .unlock)
    (hl : l ≠ .unlock) : MutexInv { s.setPc c .holding with l := l } := by
  have hno : ∀ d, s.pc d ≠ .holding := fun d hd => hI.held.mpr ⟨d, hd⟩ hu
  have hc : ∀ d, (s.setPc c .holding).pc d = .holding → d = c := by
    intro d hd
    by_contra hdc
    simp only [setPc_pc, hdc, if_false] at hd
    exact hno d hd
  refine ⟨fun d e hd he => (hc d hd).trans (hc e he).symm, ⟨fun _ => ⟨c, ?_⟩, fun _ => hl⟩⟩
  simp

/-- The holder's `l.exchange(UNLOCK)` leaves the mutex free. -/
theorem release (hI : MutexInv s) {c : Nat} {p : Pc} (hc : s.pc c = .holding)
    (hp : p ≠ .holding) : MutexInv { s.setPc c p with l := .unlock } := by
  have hsub : ∀ d, (s.setPc c p).pc d = .holding → d ≠ c ∧ s.pc d = .holding := by
    intro d hd
    by_cases hdc : d = c
    · subst hdc
      simp [hp] at hd
    · simpa [hdc] using hd
  refine ⟨fun d e hd he => hI.excl d e (hsub d hd).2 (hsub e he).2, ⟨fun h => absurd rfl h, ?_⟩⟩
  rintro ⟨d, hd⟩
  exact absurd (hI.excl d c (hsub d hd).2 hc) (hsub d hd).1

theorem notify (hI : MutexInv s) (d : Nat) : MutexInv (s.notify d) := by
  unfold Mutex.notify
  split_ifs with hb
  · exact hI.setPc (by rw [hb]; decide) (by decide)
  · exact hI

end MutexInv

/-- **Every step keeps `MutexInv`**, a spurious wake-up as well. -/
theorem mutexInv_step (hI : MutexInv s) (he : Enabled C s a) : MutexInv (s.exec a) := by
  obtain ⟨-, hsite, -⟩ := he
  cases a with
  | lock c =>
      change s.pc c = .idle at hsite
      show MutexInv (s.lock c)
      unfold Mutex.lock
      split_ifs with hu
      · exact hI.acquire hu (by decide)
      · exact hI.setPc (by rw [hsite]; decide) (by decide)
  | tryLock c =>
      show MutexInv (s.tryLock c)
      unfold Mutex.tryLock
      split_ifs with hu
      · exact hI.acquire hu (by decide)
      · exact hI
  | load c =>
      change s.pc c = .loadCheck at hsite
      show MutexInv (s.load c)
      unfold Mutex.load
      split_ifs <;> exact hI.setPc (by rw [hsite]; decide) (by decide)
  | exchange c =>
      change s.pc c = .xchg at hsite
      show MutexInv (s.exchange c)
      unfold Mutex.exchange
      split_ifs with hu
      · exact hI.acquire hu (by decide)
      · -- the mutex was held already: its holder keeps it
        exact (hI.setPc (c := c) (p := .waitEnter) (by rw [hsite]; decide) (by decide)).withL
          hu (by decide)
  | waitLock c =>
      change s.pc c = .waitEnter at hsite
      show MutexInv (s.waitLock c)
      unfold Mutex.waitLock
      split_ifs
      · have h := hI.setPc (c := c) (p := .blocked) (by rw [hsite]; decide) (by decide)
        exact ⟨h.excl, h.held⟩
      · exact hI.setPc (by rw [hsite]; decide) (by decide)
  | spurious c =>
      change s.pc c = .blocked at hsite
      exact hI.setPc (by rw [hsite]; decide) (by decide)
  | unlock c =>
      change s.pc c = .holding at hsite
      exact hI.release hsite (by split_ifs <;> decide)
  | wake c =>
      change s.pc c = .waking at hsite
      have h := hI.setPc (c := c) (p := .idle) (by rw [hsite]; decide) (by decide)
      show MutexInv (s.wake c)
      rcases wake_cases s c with ⟨-, hw⟩ | ⟨d, L, -, hw⟩ <;> rw [hw]
      · exact h
      · exact MutexInv.notify (s := { s.setPc c .idle with links := L }) ⟨h.excl, h.held⟩ d

theorem mutexInv_of_reach {s : Mutex} (h : Machine.Reach (step C) init s) : MutexInv s :=
  Machine.Invariant.reach (fun _ _ _ hI hs => by
      obtain ⟨he, rfl⟩ := step_eq hs
      exact mutexInv_step hI he) MutexInv.init h

/-- **Mutual exclusion.**  Over every interleaving of the callers' steps, spurious wake-ups
included, no two callers hold the mutex at once, and `l` is `UNLOCK` exactly when none does. -/
theorem mutualExclusion {s : Mutex} (h : Machine.Reach (step C) init s) :
    (∀ c d, s.pc c = .holding → s.pc d = .holding → c = d) ∧
      (s.l = .unlock ↔ ∀ c, s.pc c ≠ .holding) := by
  have hI := mutexInv_of_reach h
  exact ⟨hI.excl, by simpa using not_congr hI.held⟩

/-- Caller 0 holds the mutex and caller 1 is blocked in `wait()` behind it. -/
theorem mutualExclusion_holdAndWait :
    ∃ s : Mutex, Machine.Reach (step ⟨2, fun _ => true⟩) init s ∧ s.pc 0 = .holding ∧
      s.pc 1 = .blocked ∧ s.l = .wait ∧
      ((∀ c d, s.pc c = .holding → s.pc d = .holding → c = d) ∧
        (s.l = .unlock ↔ ∀ c, s.pc c ≠ .holding)) := by
  have hrun : Machine.holdsAfter (step ⟨2, fun _ => true⟩) init
      [.lock 0, .lock 1, .load 1, .exchange 1, .waitLock 1]
      (fun s : Mutex => s.pc 0 = .holding ∧ s.pc 1 = .blocked ∧ s.l = .wait) = true := by
    decide +kernel
  obtain ⟨s, hreach, h0, h1, hl⟩ := Machine.exists_of_holdsAfter _ hrun
  exact ⟨s, hreach, h0, h1, hl, mutualExclusion hreach⟩

/-! ### The wait list -/

/-- The list headed by `list` holds exactly the blocked callers, each once. -/
def WaitInv (s : Mutex) : Prop :=
  ∃ w : List Nat, Links.Rep s.links none (w.map some) ∧ ∀ c, c ∈ w ↔ s.pc c = .blocked

/-- No blocked caller is left while nothing will take the mutex: `l` is `WAIT`, so the next
`unlock` calls `wake()`, or an `unlock` that read `WAIT` has not run its `wake()`, or some
caller's `l.exchange(WAIT)` is next. -/
def NoLostWakeup (C : Callers) (s : Mutex) : Prop :=
  (∃ c < C.n, s.pc c = .blocked) → s.l = .wait ∨ ∃ c < C.n, s.pc c = .waking ∨ s.pc c = .xchg

instance (C : Callers) (s : Mutex) : Decidable (NoLostWakeup C s) :=
  inferInstanceAs (Decidable (_ → _))

/-- The list is sound: no caller is visited twice from the head, and every caller on it is
blocked in `wait()`. -/
def WaitListSound (C : Callers) (s : Mutex) : Prop :=
  (entries C s).Nodup ∧ ∀ c ∈ entries C s, s.pc c = .blocked

instance (C : Callers) (s : Mutex) : Decidable (WaitListSound C s) :=
  inferInstanceAs (Decidable (_ ∧ _))

theorem waitInv_init : WaitInv init :=
  ⟨[], ⟨⟨rfl, rfl⟩, List.nodup_singleton _⟩, fun c => by simp [init]⟩

namespace WaitInv

theorem setPc (hI : WaitInv s) {c : Nat} {p : Pc} (hc : s.pc c ≠ .blocked)
    (hp : p ≠ .blocked) : WaitInv (s.setPc c p) := by
  obtain ⟨w, hr, hw⟩ := hI
  refine ⟨w, hr, fun d => ?_⟩
  by_cases hd : d = c
  · subst hd
    simpa [hp] using (hw d).not.mpr hc
  · simpa [hd] using hw d

/-- `PushBack` of the node of a caller that is not blocked appends it. -/
theorem push (hI : WaitInv s) {c : Nat} (hc : s.pc c ≠ .blocked) :
    WaitInv { s.setPc c .blocked with links := s.links.insertBefore none (some c) } := by
  obtain ⟨w, hr, hw⟩ := hI
  have hnew : some c ∉ none :: w.map some := by
    simpa using (hw c).not.mpr hc
  refine ⟨w ++ [c], by simpa using hr.pushBack hnew, fun d => ?_⟩
  by_cases hd : d = c
  · subst hd
    simp
  · simp [hd, hw d]

/-- What `wake()` does to the list of the blocked callers: it finds it empty, or it pops the
first of them, who returns to the `while` loop. -/
theorem wake_spec (hI : WaitInv s) {c : Nat} (hc : s.pc c = .waking) :
    ((∀ d, s.pc d ≠ .blocked) ∧ s.wake c = s.setPc c .idle) ∨
      ∃ d L, s.pc d = .blocked ∧ WaitInv { (s.setPc c .idle).setPc d .xchg with links := L } ∧
        s.wake c = { (s.setPc c .idle).setPc d .xchg with links := L } := by
  obtain ⟨w, hr, hw⟩ := hI
  cases w with
  | nil =>
      have hn : s.links.next none = none := (hr.empty_iff).mpr rfl
      have hrm : s.links.removeNext none = none := by simp [Links.removeNext, hn]
      refine .inl ⟨fun d hd => by simpa using (hw d).mpr hd, ?_⟩
      unfold wake
      rw [hrm]
  | cons d w =>
      obtain ⟨L, hrm, hr', -, -⟩ := hr.popFront
      have hd : s.pc d = .blocked := (hw d).mp List.mem_cons_self
      have hdc : d ≠ c := fun h => by rw [h, hc] at hd; cases hd
      have hnd : (d :: w).Nodup := (List.nodup_cons.mp hr.2).2.of_map some
      refine .inr ⟨d, L, hd, ⟨w, hr', fun e => ?_⟩, ?_⟩
      · -- the rest of the list are the callers still blocked
        by_cases hed : e = d
        · subst hed
          simpa using (List.nodup_cons.mp hnd).1
        · by_cases hec : e = c
          · subst hec
            have : e ∉ w := fun hm => by
              have := (hw e).mp (List.mem_cons_of_mem d hm)
              rw [hc] at this
              cases this
            simpa [hed] using this
          · simpa [hed, hec] using hw e
      · unfold wake
        rw [hrm]
        simp [notify, hd, hdc]
        rfl

theorem wake (hI : WaitInv s) {c : Nat} (hc : s.pc c = .waking) : WaitInv (s.wake c) := by
  rcases hI.wake_spec hc with ⟨-, hw⟩ | ⟨d, L, -, hI', hw⟩ <;> rw [hw]
  · exact hI.setPc (by rw [hc]; decide) (by decide)
  · exact hI'

end WaitInv

namespace NoLostWakeup

/-- Moving a caller that is none of the three and does not block, with `l` left `WAIT` if it
was. -/
theorem move (hI : NoLostWakeup C s) {c : Nat} {p : Pc} {l : LockWord}
    (hc : s.pc c ≠ .blocked ∧ s.pc c ≠ .waking ∧ s.pc c ≠ .xchg) (hp : p ≠ .blocked)
    (hl : s.l = .wait → l = .wait) : NoLostWakeup C { s.setPc c p with l := l } := by
  rintro ⟨b, hbn, hb⟩
  have hbc : b ≠ c := fun h => by subst h; simp [hp] at hb
  rcases hI ⟨b, hbn, by simpa [hbc] using hb⟩ with hw | ⟨e, hen, he⟩
  · exact .inl (hl hw)
  · have hec : e ≠ c := fun h => by subst h; rcases he with he | he <;> simp [he] at hc
    exact .inr ⟨e, hen, by simpa [hec] using he⟩

theorem of_witness {c : Nat} (hn : c < C.n) (hc : s.pc c = .waking ∨ s.pc c = .xchg) :
    NoLostWakeup C s :=
  fun _ => .inr ⟨c, hn, hc⟩

end NoLostWakeup

/-- **Every step but a spurious wake-up keeps the wait list sound**, with no waiter lost. -/
theorem waitInv_step (hC : CallerInv C s) (hI : WaitInv s) (hN : NoLostWakeup C s)
    (he : Enabled C s a) (ha : a.isSpurious = false) :
    WaitInv (s.exec a) ∧ NoLostWakeup C (s.exec a) := by
  obtain ⟨hn, hsite, -⟩ := he
  cases a with
  | lock c =>
      change s.pc c = .idle at hsite
      have hc : s.pc c ≠ .blocked ∧ s.pc c ≠ .waking ∧ s.pc c ≠ .xchg := by simp [hsite]
      show WaitInv (s.lock c) ∧ NoLostWakeup C (s.lock c)
      unfold Mutex.lock
      split_ifs with hu
      · exact ⟨hI.setPc hc.1 (by decide), hN.move hc (by decide) (fun h => by simp [hu] at h)⟩
      · exact ⟨hI.setPc hc.1 (by decide), hN.move (l := s.l) hc (by decide) id⟩
  | tryLock c =>
      change s.pc c = .idle at hsite
      have hc : s.pc c ≠ .blocked ∧ s.pc c ≠ .waking ∧ s.pc c ≠ .xchg := by simp [hsite]
      show WaitInv (s.tryLock c) ∧ NoLostWakeup C (s.tryLock c)
      unfold Mutex.tryLock
      split_ifs with hu
      · exact ⟨hI.setPc hc.1 (by decide), hN.move hc (by decide) (fun h => by simp [hu] at h)⟩
      · exact ⟨hI, hN⟩
  | load c =>
      change s.pc c = .loadCheck at hsite
      change c < C.n at hn
      have hc : s.pc c ≠ .blocked ∧ s.pc c ≠ .waking ∧ s.pc c ≠ .xchg := by simp [hsite]
      show WaitInv (s.load c) ∧ NoLostWakeup C (s.load c)
      unfold Mutex.load
      split_ifs
      · exact ⟨hI.setPc hc.1 (by decide), hN.move (l := s.l) hc (by decide) id⟩
      · exact ⟨hI.setPc hc.1 (by decide), NoLostWakeup.of_witness hn (by simp)⟩
  | exchange c =>
      change s.pc c = .xchg at hsite
      refine ⟨hI.setPc (by simp [hsite]) (by split_ifs <;> decide), fun _ => .inl rfl⟩
  | waitLock c =>
      change s.pc c = .waitEnter at hsite
      change c < C.n at hn
      show WaitInv (s.waitLock c) ∧ NoLostWakeup C (s.waitLock c)
      unfold Mutex.waitLock
      split_ifs with hw
      · exact ⟨hI.push (by simp [hsite]), fun _ => .inl hw⟩
      · exact ⟨hI.setPc (by simp [hsite]) (by decide), NoLostWakeup.of_witness hn (by simp)⟩
  | spurious c => cases ha
  | unlock c =>
      change s.pc c = .holding at hsite
      change c < C.n at hn
      have hc : s.pc c ≠ .blocked ∧ s.pc c ≠ .waking ∧ s.pc c ≠ .xchg := by simp [hsite]
      show WaitInv (s.unlock c) ∧ NoLostWakeup C (s.unlock c)
      unfold Mutex.unlock
      split_ifs with hw
      · -- `wake()` is due
        exact ⟨hI.setPc hc.1 (by decide), NoLostWakeup.of_witness hn (by simp)⟩
      · exact ⟨hI.setPc hc.1 (by decide), hN.move hc (by decide) (fun h => absurd h hw)⟩
  | wake c =>
      change s.pc c = .waking at hsite
      show WaitInv (s.wake c) ∧ NoLostWakeup C (s.wake c)
      refine ⟨hI.wake hsite, ?_⟩
      rcases hI.wake_spec hsite with ⟨hno, hw⟩ | ⟨d, L, hd, -, hw⟩ <;> rw [hw]
      · -- nobody was blocked, and nobody is
        rintro ⟨b, -, hb⟩
        by_cases hbc : b = c
        · subst hbc
          simp at hb
        · simp [hbc] at hb
          exact absurd hb (hno b)
      · -- the popped caller's `l.exchange(WAIT)` is next
        exact NoLostWakeup.of_witness (hC.lt hd (by decide)) (by simp)

/-- The callers on a sound list, from `next` at the head. -/
theorem entries_eq {w : List Nat} (hr : Links.Rep s.links none (w.map some))
    (hlen : w.length ≤ C.n + 1) : entries C s = w := by
  unfold entries
  rw [hr.walk (by simpa using hlen), List.filterMap_map]
  simp

/-- On runs without a spurious wake-up, the three invariants hold. -/
theorem waitInv_of_noSpurious {s : Mutex}
    (h : Machine.Leads (step C) (fun a => a.isSpurious = false) init s) :
    CallerInv C s ∧ WaitInv s ∧ NoLostWakeup C s := by
  refine Machine.Leads.invariant (P := fun s => CallerInv C s ∧ WaitInv s ∧ NoLostWakeup C s)
    (fun s a t ha ⟨hC, hI, hN⟩ hs => ?_)
    ⟨callerInv_init C, waitInv_init, fun ⟨_, _, hb⟩ => by cases hb⟩ h
  obtain ⟨he, rfl⟩ := step_eq hs
  exact ⟨callerInv_step hC he, waitInv_step hC hI hN he ha⟩

/-- **Without spurious wake-ups the wait list is sound**: it visits every caller at most once,
and only callers blocked in `wait()`. -/
theorem waitListSound_of_noSpurious {s : Mutex}
    (h : Machine.Leads (step C) (fun a => a.isSpurious = false) init s) :
    WaitListSound C s := by
  obtain ⟨hC, ⟨w, hr, hw⟩, -⟩ := waitInv_of_noSpurious h
  have hnd : w.Nodup := (List.nodup_cons.mp hr.2).2.of_map some
  -- the blocked callers are among the `n`
  have hlt : ∀ c ∈ w, c ∈ List.range C.n := fun c hc =>
    List.mem_range.mpr (hC.lt ((hw c).mp hc) (by decide))
  have hlen : w.length ≤ C.n := by
    simpa using (hnd.subperm hlt).length_le
  rw [WaitListSound, entries_eq hr (by omega)]
  exact ⟨hnd, fun c hc => (hw c).mp hc⟩

/-- Callers 1 and 2 wait, in that order, behind caller 0, which holds the mutex. -/
theorem waitListSound_of_noSpurious_twoWaiters :
    ∃ s, Machine.Leads (step ⟨3, fun _ => true⟩) (fun a => a.isSpurious = false) init s ∧
      entries ⟨3, fun _ => true⟩ s = [1, 2] ∧ WaitListSound ⟨3, fun _ => true⟩ s := by
  have hrun : Machine.holdsAfter (step ⟨3, fun _ => true⟩) init
      [.lock 0, .lock 1, .load 1, .exchange 1, .waitLock 1, .lock 2, .load 2, .waitLock 2]
      (fun s : Mutex => entries ⟨3, fun _ => true⟩ s = [1, 2]) = true := by
    decide +kernel
  obtain ⟨s, hleads, he⟩ := Machine.Leads.exists_of_holdsAfter
    (fun a : MutexAction => a.isSpurious = false) _ (by decide) hrun
  exact ⟨s, hleads, he, waitListSound_of_noSpurious hleads⟩

/-- **No lost wake-up without spurious wake-ups.**  While a caller is blocked, `l` is `WAIT`,
or a `wake()` is due, or a caller is about to set `WAIT` again with `l.exchange`. -/
theorem noLostWakeup_of_noSpurious {s : Mutex}
    (h : Machine.Leads (step C) (fun a => a.isSpurious = false) init s) : NoLostWakeup C s :=
  (waitInv_of_noSpurious h).2.2

/-- Caller 1 is blocked in `wait()` behind caller 0, and `l` is `WAIT`. -/
theorem noLostWakeup_of_noSpurious_blocked :
    ∃ s, Machine.Leads (step ⟨2, fun _ => true⟩) (fun a => a.isSpurious = false) init s ∧
      s.pc 1 = .blocked ∧ NoLostWakeup ⟨2, fun _ => true⟩ s := by
  have hrun : Machine.holdsAfter (step ⟨2, fun _ => true⟩) init
      [.lock 0, .lock 1, .load 1, .exchange 1, .waitLock 1]
      (fun s : Mutex => s.pc 1 = .blocked) = true := by
    decide +kernel
  obtain ⟨s, hleads, hb⟩ := Machine.Leads.exists_of_holdsAfter
    (fun a : MutexAction => a.isSpurious = false) _ (by decide) hrun
  exact ⟨s, hleads, hb, noLostWakeup_of_noSpurious hleads⟩

/-- With spurious wake-ups a waiter is lost.  A thread waiter wakes spuriously and waits again
while its node is still the last one, which links the node to itself
(`waitLock_relinks_self`), and a third thread waits behind it.  `wake()` pops the node, but
`Delete` of a node that is its own neighbour leaves the head pointing at it; the woken caller
takes the mutex and releases it, its own `wake()` pops the stale node again, and the third
thread is left blocked with `l` `UNLOCK` and nobody about to set `WAIT`. -/
theorem noLostWakeup_fails :
    ¬ ∀ s, Machine.Reach (step ⟨3, fun _ => true⟩) init s → NoLostWakeup ⟨3, fun _ => true⟩ s :=
  Machine.not_always_of_failsAfter
    [.lock 0, .lock 1, .load 1, .exchange 1, .waitLock 1, .spurious 1, .exchange 1, .waitLock 1,
      .lock 2, .load 2, .waitLock 2, .unlock 0, .wake 0, .exchange 1, .unlock 1, .wake 1]
    (by decide +kernel)

/-! ### Spurious wake-ups -/

/-- **A waiter that waits again while its node is still the last one links the node to
itself.**  The thread path returns from `wait()` after a spurious wake-up without taking its
node off the list; its next `wait()` pushes the same node again. -/
theorem waitLock_relinks_self {c : Nat} (hl : s.l = .wait) (hlast : s.links.prev none = some c) :
    (s.waitLock c).links.next (some c) = some c := by
  simp only [waitLock, hl, if_true]
  exact Links.insertBefore_last_self _ hlast

/-- A thread waiter wakes up spuriously, goes back to `l.exchange(WAIT)` while the mutex is
still held, and waits again: its node, left on the list, is pushed a second time and linked to
itself, and `next` from the head visits it again and again. -/
theorem waitListSound_fails :
    ¬ ∀ s, Machine.Reach (step ⟨2, fun _ => true⟩) init s → WaitListSound ⟨2, fun _ => true⟩ s :=
  Machine.not_always_of_failsAfter
    [.lock 0, .lock 1, .load 1, .exchange 1, .waitLock 1, .spurious 1, .exchange 1, .waitLock 1]
    (by decide +kernel)

end Mutex

end Ffrt.Sync

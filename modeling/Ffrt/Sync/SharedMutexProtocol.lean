import Ffrt.Sync.SharedMutex

/-!
# Sync — Shared mutex protocol

What `SharedMutexPrivate` keeps over every interleaving of its callers, and what a spurious
wake-up of a thread waiter breaks.

* `Counted`: the word counts the callers, `writeEntered` for the one writer that has entered
  and one for each reader, and a writer holds the lock only when no reader does.  Every step
  keeps it, spurious wake-ups included (`lockWord_of_reach`).
* `noStrand_fails`: a reader woken spuriously takes the lock with its node still on `wList1`;
  the writer's `NotifyAll` later pops that node, wakes nobody, and stops before the writer
  queued behind it, which is left waiting with the lock free and nobody to wake it.
-/

namespace Ffrt.Sync

open Intrusive Function

namespace SharedMutexPrivate

variable {C : Callers} {s t : SharedMutexPrivate} {c d : Nat}

/-! ### Counting callers -/

/-- Moving one caller changes a count by what it moved from and to. -/
theorem countAt_update {f : Nat → RwPc} (hc : c < C.n) (p : RwPc) (q : RwPc → Bool) :
    countAt C (update f c p) q + (if q (f c) then 1 else 0) =
      countAt C f q + (if q p then 1 else 0) := by
  unfold countAt
  generalize C.n = n at hc ⊢
  -- induction on the number of callers, the last of them being `c` or not
  induction n with
  | zero => omega
  | succ n ih =>
      simp only [List.range_succ, List.countP_append, List.countP_singleton]
      rcases Nat.lt_succ_iff_lt_or_eq.mp hc with hlt | rfl
      · have := ih hlt
        rw [update_of_ne (Nat.ne_of_gt hlt)]
        omega
      · have hsame : (List.range c).countP (fun d => q (update f c p d)) =
            (List.range c).countP (fun d => q (f d)) :=
          List.countP_congr fun d hd => by
            rw [update_of_ne (Nat.ne_of_lt (List.mem_range.mp hd))]
        rw [hsame, update_self]
        omega

theorem countAt_update_of_eq {f : Nat → RwPc} {p : RwPc} {q : RwPc → Bool}
    (hq : q (f c) = q p) : countAt C (update f c p) q = countAt C f q :=
  List.countP_congr fun d _ => by
    by_cases hd : d = c
    · subst hd
      rw [update_self, hq]
    · rw [update_of_ne hd]

/-- A caller that moves to a place `q` picks from one it does not adds one to the count. -/
theorem countAt_update_add {f : Nat → RwPc} (hc : c < C.n) {p : RwPc} {q : RwPc → Bool}
    (h0 : q (f c) = false) (h1 : q p = true) :
    countAt C (update f c p) q = countAt C f q + 1 := by
  have := countAt_update (C := C) (f := f) hc p q
  rw [h0, h1] at this
  simpa using this

/-- A caller that moves from a place `q` picks to one it does not takes one from the count. -/
theorem countAt_update_sub {f : Nat → RwPc} (hc : c < C.n) {p : RwPc} {q : RwPc → Bool}
    (h1 : q (f c) = true) (h0 : q p = false) :
    countAt C (update f c p) q + 1 = countAt C f q := by
  have := countAt_update (C := C) (f := f) hc p q
  rw [h0, h1] at this
  simpa using this

theorem exists_of_countAt_pos {f : Nat → RwPc} {q : RwPc → Bool} (h : 0 < countAt C f q) :
    ∃ c, c < C.n ∧ q (f c) = true := by
  obtain ⟨c, hc, hq⟩ := List.countP_pos_iff.mp h
  exact ⟨c, List.mem_range.mp hc, hq⟩

theorem countAt_pos {f : Nat → RwPc} {q : RwPc → Bool} (hc : c < C.n) (hq : q (f c) = true) :
    0 < countAt C f q :=
  List.countP_pos_iff.mpr ⟨c, List.mem_range.mpr hc, hq⟩

/-! ### Steps -/

theorem step_eq {a : SharedMutexAction} (h : step C s a = some t) :
    Enabled C s a ∧ t = s.exec a := by
  unfold step at h
  split at h
  · cases h
    exact ⟨by assumption, rfl⟩
  · cases h

theorem notify_eq_of_blocked {g : Gate} (h : s.pc d = .blocked g) :
    s.notify d = s.setPc d (.woken g) := by
  simp [notify, h]

theorem notify_eq_self (h : (s.pc d).isBlocked = false) : s.notify d = s := by
  unfold notify
  split
  · rename_i g hg
    rw [hg] at h
    cases h
  · rfl

/-! ### The word counts the callers -/

/-- `state` is `writeEntered` for the writer that has entered, if there is one, plus one for
each reader; callers past the `n` stay idle; a writer holds the lock only when no reader
does. -/
structure Counted (C : Callers) (s : SharedMutexPrivate) : Prop where
  idle : ∀ c, C.n ≤ c → s.pc c = .idle
  one : entered C s.pc ≤ 1
  bound : readers C s.pc ≤ readersMax
  word : s.state = writeEntered * entered C s.pc + readers C s.pc
  excl : ∀ c, s.pc c = .writing → readers C s.pc = 0

namespace Counted

theorem init (C : Callers) : Counted C SharedMutexPrivate.init := by
  have h0 : ∀ q : RwPc → Bool, q .idle = false → countAt C SharedMutexPrivate.init.pc q = 0 :=
    fun q hq => List.countP_eq_zero.mpr fun _ _ => by simp [SharedMutexPrivate.init, hq]
  have hE : entered C SharedMutexPrivate.init.pc = 0 := h0 _ rfl
  have hR : readers C SharedMutexPrivate.init.pc = 0 := h0 _ rfl
  refine ⟨fun _ _ => rfl, by omega, by omega, ?_, fun _ h => by cases h⟩
  rw [hE, hR]
  rfl

/-- The invariant reads `state` and the places of the callers only. -/
theorem congr (h : Counted C s) (hst : t.state = s.state) (hpc : t.pc = s.pc) : Counted C t where
  idle := hpc ▸ h.idle
  one := hpc ▸ h.one
  bound := hpc ▸ h.bound
  word := by rw [hst, hpc]; exact h.word
  excl := hpc ▸ h.excl

theorem lt_of_ne_idle (h : Counted C s) (hc : s.pc c ≠ .idle) : c < C.n :=
  Nat.lt_of_not_le fun hn => hc (h.idle c hn)

/-- `state & writeEntered` says whether a writer has entered. -/
theorem entered_iff (h : Counted C s) : s.state &&& writeEntered ≠ 0 ↔ entered C s.pc = 1 := by
  rw [h.word]
  exact word_and_writeEntered h.one h.bound

/-- `state & readersMax` is the number of readers. -/
theorem and_readersMax (h : Counted C s) : s.state &&& readersMax = readers C s.pc := by
  rw [h.word]
  exact word_and_readersMax h.bound

/-- **Moving one caller between places that count the same keeps the word.** -/
theorem move (h : Counted C s) (hc : c < C.n) {p : RwPc} (hst : t.state = s.state)
    (hpc : t.pc = update s.pc c p) (he : (s.pc c).entered = p.entered)
    (hr : (s.pc c).isReading = p.isReading) (hw : p = .writing → readers C s.pc = 0) :
    Counted C t := by
  have hE : entered C t.pc = entered C s.pc := by
    rw [hpc]
    exact countAt_update_of_eq he
  have hR : readers C t.pc = readers C s.pc := by
    rw [hpc]
    exact countAt_update_of_eq hr
  refine ⟨fun e he' => ?_, hE ▸ h.one, hR ▸ h.bound, by rw [hst, hE, hR]; exact h.word,
    fun e hew => ?_⟩
  · have hec : e ≠ c := by omega
    rw [hpc, update_of_ne hec]
    exact h.idle e he'
  · rw [hR]
    by_cases hec : e = c
    · subst hec
      rw [hpc, update_self] at hew
      exact hw hew
    · rw [hpc, update_of_ne hec] at hew
      exact h.excl e hew

theorem notify (h : Counted C s) (d : Nat) : Counted C (s.notify d) := by
  cases hd : s.pc d with
  | blocked g =>
      rw [notify_eq_of_blocked hd]
      have hn : d < C.n := h.lt_of_ne_idle (by rw [hd]; exact RwPc.noConfusion)
      -- a waiter woken from a loop counts as it did while it waited there
      exact h.move hn rfl rfl (by rw [hd]; cases g <;> rfl) (by rw [hd]; rfl) RwPc.noConfusion
  | _ => rwa [notify_eq_self (by rw [hd]; rfl)]

theorem notifyOne (h : Counted C s) (l : WList) : Counted C (s.notifyOne l) := by
  unfold SharedMutexPrivate.notifyOne
  split
  · rename_i d L _
    exact (h.congr (t := { s with links := L }) rfl rfl).notify d
  · exact h.congr rfl rfl
  · exact h

/-- A caller that is idle or in `NotifyAll` counts for nothing. -/
def Quiet (p : RwPc) : Prop := p = .idle ∨ p = .notifying

theorem quiet_entered {p : RwPc} (hp : Quiet p) : p.entered = false := by
  rcases hp with rfl | rfl <;> rfl

theorem quiet_isReading {p : RwPc} (hp : Quiet p) : p.isReading = false := by
  rcases hp with rfl | rfl <;> rfl

/-- Moving a caller between `idle` and `NotifyAll` keeps the word. -/
theorem setQuiet (h : Counted C s) (hc : c < C.n) (hq : Quiet (s.pc c)) {p : RwPc}
    (hp : Quiet p) : Counted C (s.setPc c p) :=
  h.move hc rfl rfl (by rw [quiet_entered hq, quiet_entered hp])
    (by rw [quiet_isReading hq, quiet_isReading hp]) (fun hw => by rcases hp with h' | h' <;>
      rw [hw] at h' <;> cases h')

theorem notifyAllTurn (h : Counted C s) (hc : c < C.n) (hq : Quiet (s.pc c)) :
    Counted C (s.notifyAllTurn c) := by
  have hqs : Quiet (s.pc c) := hq
  unfold SharedMutexPrivate.notifyAllTurn
  split
  · rename_i d L _
    -- `notify d` leaves `c` where it is: `c` is not blocked
    have hpc : (({ s with links := L } : SharedMutexPrivate).notify d).pc c = s.pc c := by
      by_cases hdc : d = c
      · subst hdc
        rw [notify_eq_self (by rcases hq with h' | h' <;> simp [h', RwPc.isBlocked])]
      · cases hd : s.pc d with
        | blocked g =>
            rw [notify_eq_of_blocked (s := { s with links := L }) hd]
            simp [Ne.symm hdc]
        | _ => rw [notify_eq_self (s := { s with links := L }) (by simp [hd, RwPc.isBlocked])]
    refine ((h.congr (t := { s with links := L }) rfl rfl).notify d).setQuiet hc
      (by rw [hpc]; exact hqs) ?_
    split <;> simp [Quiet]
  · exact (h.setQuiet hc hq (.inl rfl)).congr rfl rfl
  · exact h.setQuiet hc hq (.inl rfl)

/-- **A writer passes `Lock`'s first loop**: `state |= writeEntered`, the writer counted as
waiting on `wList2` until its second loop decides. -/
theorem enter (h : Counted C s) (hc : c < C.n) (hz : ¬ s.state &&& writeEntered ≠ 0)
    (he : (s.pc c).entered = false) (hr : (s.pc c).isReading = false) :
    Counted C ({ s with state := s.state ||| writeEntered }.setPc c (.blocked .drain)) := by
  have hE : entered C s.pc = 0 := by
    have := h.one
    have := mt h.entered_iff.mpr hz
    omega
  have hE' : entered C (update s.pc c (.blocked .drain)) = 1 := by
    rw [entered, countAt_update_add hc he rfl]
    exact congrArg (· + 1) hE
  have hR : readers C (update s.pc c (.blocked .drain)) = readers C s.pc :=
    countAt_update_of_eq (by rw [hr]; rfl)
  refine ⟨fun e he' => ?_, by simp [hE'], by simpa [hR] using h.bound, ?_, fun e hew => ?_⟩
  · have hec : e ≠ c := by omega
    simp [hec, h.idle e he']
  · have hw := h.word
    rw [hE] at hw
    simp only [setPc_state, setPc_pc, hE', hR, hw]
    exact word_or_writeEntered h.bound
  · have hec : e ≠ c := by
      rintro rfl
      simp at hew
    simp only [setPc_pc, update_of_ne hec] at hew
    simpa [hR] using h.excl e hew

/-- `Lock`'s second loop, from a state that counts the writer as waiting on `wList2`. -/
theorem drainLoop (h : Counted C (s.setPc c (.blocked .drain))) (hc : c < C.n) :
    Counted C (s.drainLoop c) ∧ 0 < entered C (s.drainLoop c).pc := by
  have hr := h.and_readersMax
  simp only [setPc_state] at hr
  unfold SharedMutexPrivate.drainLoop
  split
  · -- readers remain: the writer waits on `wList2`
    refine ⟨h.congr rfl rfl, countAt_pos hc ?_⟩
    simp [RwPc.entered]
  · rename_i h0
    have h0' : readers C (s.setPc c (.blocked .drain)).pc = 0 := by omega
    refine ⟨h.move (p := .writing) hc rfl (by simp) (by simp [RwPc.entered])
      (by simp [RwPc.isReading]) (fun _ => h0'), countAt_pos hc ?_⟩
    simp [RwPc.entered]

/-- `Lock` from its first loop, by a caller that is not counted yet. -/
theorem writeLoop (h : Counted C s) (hc : c < C.n) (he : (s.pc c).entered = false)
    (hr : (s.pc c).isReading = false) :
    Counted C (s.writeLoop c) ∧ 0 < entered C (s.writeLoop c).pc := by
  unfold SharedMutexPrivate.writeLoop
  split
  · -- another writer has entered: wait on `wList1`
    rename_i hb
    have hw : Counted C (s.wait c .write) :=
      h.move hc rfl rfl (by rw [he]; rfl) (by rw [hr]; rfl) RwPc.noConfusion
    refine ⟨hw, ?_⟩
    have hE : entered C (s.wait c .write).pc = entered C s.pc :=
      countAt_update_of_eq (by rw [he]; rfl)
    have := h.entered_iff.mp hb
    omega
  · rename_i hb
    exact drainLoop (h.enter hc hb he hr) hc

/-- `LockShared`'s loop passed: `++state`. -/
theorem acquireShared (h : Counted C s) (hc : c < C.n) (hlt : s.state < readersMax)
    (he : (s.pc c).entered = false) (hr : (s.pc c).isReading = false) :
    Counted C { s.setPc c .reading with state := s.state + 1 } := by
  have hwd := h.word
  have hlt' : ¬ (entered C s.pc = 1 ∨ readers C s.pc = readersMax) := by
    rw [← readersMax_le_word h.one h.bound, ← hwd]
    omega
  have hE : entered C s.pc = 0 := by have := h.one; omega
  have hE' : entered C (update s.pc c .reading) = entered C s.pc :=
    countAt_update_of_eq (by rw [he]; rfl)
  have hR' : readers C (update s.pc c .reading) = readers C s.pc + 1 :=
    countAt_update_add hc hr rfl
  refine ⟨fun e he' => ?_, by simp [hE', h.one], ?_, ?_, fun e hew => ?_⟩
  · have hec : e ≠ c := by omega
    simp [hec, h.idle e he']
  · show readers C (update s.pc c .reading) ≤ readersMax
    have := h.bound
    omega
  · show s.state + 1 = writeEntered * entered C (update s.pc c .reading) +
      readers C (update s.pc c .reading)
    rw [hE', hR', hwd, hE]
    omega
  · -- no writer holds: none has entered
    have hec : e ≠ c := by
      rintro rfl
      simp at hew
    simp only [setPc_pc, update_of_ne hec] at hew
    have : 0 < entered C s.pc :=
      countAt_pos (h.lt_of_ne_idle (by rw [hew]; decide)) (show (s.pc e).entered = true by
        rw [hew]; rfl)
    omega

/-- `LockShared`'s loop, by a caller that is not counted yet. -/
theorem readLoop (h : Counted C s) (hc : c < C.n) (he : (s.pc c).entered = false)
    (hr : (s.pc c).isReading = false) :
    Counted C (s.readLoop c) ∧
      (0 < readers C (s.readLoop c).pc ∨ 0 < entered C (s.readLoop c).pc) := by
  unfold SharedMutexPrivate.readLoop
  split
  · -- a writer has entered, or the readers are at their bound: wait on `wList1`
    rename_i hle
    have hw : Counted C (s.wait c .read) :=
      h.move hc rfl rfl (by rw [he]; rfl) (by rw [hr]; rfl) RwPc.noConfusion
    have hE : entered C (s.wait c .read).pc = entered C s.pc :=
      countAt_update_of_eq (by rw [he]; rfl)
    have hR : readers C (s.wait c .read).pc = readers C s.pc :=
      countAt_update_of_eq (by rw [hr]; rfl)
    rw [h.word, readersMax_le_word h.one h.bound] at hle
    refine ⟨hw, ?_⟩
    rw [hE, hR]
    rcases hle with hle | hle
    · omega
    · rw [readersMax_eq] at hle
      omega
  · rename_i hlt
    refine ⟨h.acquireShared hc (by omega) he hr, .inl (countAt_pos hc ?_)⟩
    simp [RwPc.isReading]

/-- `TryLock` that finds `state == 0`. -/
theorem acquire (h : Counted C s) (hc : c < C.n) (h0 : s.state = 0)
    (he : (s.pc c).entered = false) (hr : (s.pc c).isReading = false) :
    Counted C { s.setPc c .writing with state := writeEntered } := by
  have hwd := h.word
  rw [writeEntered_eq] at hwd
  have hE : entered C s.pc = 0 := by omega
  have hR : readers C s.pc = 0 := by omega
  have hE' : entered C (update s.pc c .writing) = 1 := by
    rw [entered, countAt_update_add hc he rfl]
    exact congrArg (· + 1) hE
  have hR' : readers C (update s.pc c .writing) = 0 :=
    (countAt_update_of_eq (C := C) (q := RwPc.isReading) (by rw [hr]; rfl)).trans hR
  refine ⟨fun e he' => ?_, by simp [hE'], by simp [hR'], by simp [hE', hR'], fun _ _ => ?_⟩
  · have hec : e ≠ c := by omega
    simp [hec, h.idle e he']
  · simpa using hR'

/-- The writer's `Unlock`: `state = 0`. -/
theorem releaseWriter (h : Counted C s) (hc : c < C.n) (hw : s.pc c = .writing) :
    Counted C { s.setPc c .idle with state := 0 } := by
  have hR : readers C s.pc = 0 := h.excl c hw
  have hE' : entered C (update s.pc c .idle) + 1 = entered C s.pc :=
    countAt_update_sub hc (by rw [hw]; rfl) rfl
  have hR' : readers C (update s.pc c .idle) = 0 :=
    (countAt_update_of_eq (C := C) (q := RwPc.isReading) (by rw [hw]; rfl)).trans hR
  have := h.one
  refine ⟨fun e he' => ?_, by simp; omega, by simp [hR'], by simp [hR']; omega, fun e hew => ?_⟩
  · by_cases hec : e = c
    · simp [hec]
    · simp [hec, h.idle e he']
  · simpa using hR'

/-- A reader's `Unlock`: `--state`. -/
theorem releaseReader (h : Counted C s) (hc : c < C.n) (hrd : s.pc c = .reading) :
    Counted C { s.setPc c .idle with state := s.state - 1 } := by
  have hR' : readers C (update s.pc c .idle) + 1 = readers C s.pc :=
    countAt_update_sub hc (by rw [hrd]; rfl) rfl
  have hE' : entered C (update s.pc c .idle) = entered C s.pc :=
    countAt_update_of_eq (by rw [hrd]; rfl)
  have hwd := h.word
  refine ⟨fun e he' => ?_, by simp [hE', h.one], by simp; have := h.bound; omega,
    by simp [hE']; omega, fun e hew => ?_⟩
  · by_cases hec : e = c
    · simp [hec]
    · simp [hec, h.idle e he']
  · -- no writer held the lock while `c` read
    have hec : e ≠ c := by
      rintro rfl
      simp at hew
    simp only [setPc_pc, update_of_ne hec] at hew
    have := h.excl e hew
    omega

theorem afterDecrement (h : Counted C s) (hc : c < C.n) (hq : Quiet (s.pc c)) :
    Counted C (s.afterDecrement c) := by
  unfold SharedMutexPrivate.afterDecrement
  split_ifs
  · exact h.notifyOne _
  · exact h
  · exact h.notifyOne _
  · exact h.notifyAllTurn hc hq
  · exact h

/-- The holder's `Unlock`. -/
theorem unlock (h : Counted C s) (hc : c < C.n) (hh : (s.pc c).holds = true) :
    Counted C (s.unlock c) := by
  have hwd := h.word
  have hcases : s.pc c = .writing ∨ s.pc c = .reading := by
    cases hp : s.pc c <;> simp_all [RwPc.holds]
  rcases hcases with hw | hrd
  · -- the writer: `state` is `writeEntered`, and `NotifyAll(wList1)` follows
    have hE : entered C s.pc = 1 := by
      have : 0 < entered C s.pc := countAt_pos (f := s.pc) hc (by rw [hw]; rfl)
      have := h.one
      omega
    have hst : s.state = writeEntered := by rw [hwd, hE, h.excl c hw]; rfl
    have hu : s.unlock c = { s.setPc c .idle with state := 0 }.notifyAllTurn c := by
      simp [SharedMutexPrivate.unlock, hst]
    rw [hu]
    exact (h.releaseWriter hc hw).notifyAllTurn hc (by simp [Quiet])
  · -- a reader: `--state`, and whom to wake
    have hR : 0 < readers C s.pc := countAt_pos hc (by rw [hrd]; rfl)
    have hne : s.state ≠ writeEntered := by
      rw [hwd, Ne, word_eq_writeEntered h.bound]
      omega
    have h0 : 0 < s.state := by omega
    have hu : s.unlock c = { s.setPc c .idle with state := s.state - 1 }.afterDecrement c := by
      simp [SharedMutexPrivate.unlock, hne, h0]
    rw [hu]
    exact (h.releaseReader hc hrd).afterDecrement hc (by simp [Quiet])

/-- A woken waiter runs its loop again. -/
theorem resume (h : Counted C s) (hc : c < C.n) (hw : (s.pc c).isWoken = true) :
    Counted C (s.resume c) := by
  cases hp : s.pc c with
  | woken g =>
      simp only [SharedMutexPrivate.resume, hp]
      cases g with
      | write => exact (h.writeLoop hc (by rw [hp]; rfl) (by rw [hp]; rfl)).1
      | read => exact (h.readLoop hc (by rw [hp]; rfl) (by rw [hp]; rfl)).1
      | drain =>
          -- still the writer that has entered, now waiting on `wList2` again
          have hd : Counted C (s.setPc c (.blocked .drain)) :=
            h.move hc rfl rfl (by rw [hp]; rfl) (by rw [hp]; rfl) RwPc.noConfusion
          exact (drainLoop hd hc).1
  | _ => rw [hp] at hw; cases hw

end Counted

/-- **Every step keeps `Counted`**, a spurious wake-up as well. -/
theorem counted_step {a : SharedMutexAction} (h : Counted C s) (he : Enabled C s a) :
    Counted C (s.exec a) := by
  obtain ⟨hn, hsite, -, -⟩ := he
  cases a with
  | lock c | lockShared c | tryLock c | tryLockShared c =>
      have hi : s.pc c = .idle := by
        change (s.pc c == .idle) = true at hsite
        simpa using hsite
      have he : (s.pc c).entered = false := by rw [hi]; rfl
      have hr : (s.pc c).isReading = false := by rw [hi]; rfl
      first
        | exact (h.writeLoop hn he hr).1
        | exact (h.readLoop hn he hr).1
        | show Counted C (s.tryLock c)
          unfold SharedMutexPrivate.tryLock
          split_ifs with h0
          · exact h.acquire hn h0 he hr
          · exact h
        | show Counted C (s.tryLockShared c)
          unfold SharedMutexPrivate.tryLockShared
          split_ifs with hlt
          · exact h.acquireShared hn hlt he hr
          · exact h
  | unlock c => exact h.unlock hn hsite
  | notifyAll c =>
      have hq : s.pc c = .notifying := by
        change (s.pc c == .notifying) = true at hsite
        simpa using hsite
      exact h.notifyAllTurn hn (.inr hq)
  | spurious c => exact h.notify c
  | resume c => exact h.resume hn hsite

theorem counted_of_reach (hr : Machine.Reach (step C) init s) : Counted C s := by
  refine Machine.Invariant.reach (fun s a t h hs => ?_) (Counted.init C) hr
  obtain ⟨he, rfl⟩ := step_eq hs
  exact counted_step h he

/-- **The lock word, on every run.**  `state & readersMax` is the number of callers holding the
lock shared; the `writeEntered` bit is set exactly when a writer has passed `Lock`'s first
loop, and at most one has; no caller holds the lock exclusively while another holds it shared.
Spurious wake-ups do not change this. -/
theorem lockWord_of_reach (hr : Machine.Reach (step C) init s) :
    s.state &&& readersMax = readers C s.pc ∧
      (s.state &&& writeEntered ≠ 0 ↔ ∃ c, c < C.n ∧ (s.pc c).entered = true) ∧
      entered C s.pc ≤ 1 ∧
      ∀ c d, s.pc c = .writing → s.pc d ≠ .reading := by
  have h := counted_of_reach hr
  refine ⟨h.and_readersMax, ?_, h.one, fun c d hc hd => ?_⟩
  · rw [h.entered_iff]
    constructor
    · intro h1
      exact exists_of_countAt_pos (show 0 < entered C s.pc by omega)
    · rintro ⟨e, he, hq⟩
      have := countAt_pos he hq
      have := h.one
      change 0 < entered C s.pc at *
      omega
  · -- the writer saw no reader, and a reader is one of the callers
    have h0 := h.excl c hc
    have := countAt_pos (C := C) (q := RwPc.isReading) (h.lt_of_ne_idle (by rw [hd]; decide))
      (show (s.pc d).isReading = true by rw [hd]; rfl)
    change 0 < readers C s.pc at this
    omega

/-- Readers `0` and `1` hold the lock shared; writer `2` enters and waits on `wList2` for them;
reader `3` waits on `wList1`, wakes spuriously and waits again.  The word counts two readers and
the entered writer. -/
theorem lockWord_of_reach_readersAndWriter :
    ∃ s, Machine.Reach (step ⟨4, fun _ => true⟩) init s ∧
      readers ⟨4, fun _ => true⟩ s.pc = 2 ∧ s.state &&& writeEntered ≠ 0 ∧
      (s.pc 2).isBlocked = true ∧ (s.pc 3).isBlocked = true ∧
      (s.state &&& readersMax = readers ⟨4, fun _ => true⟩ s.pc ∧
        (s.state &&& writeEntered ≠ 0 ↔ ∃ c, c < 4 ∧ (s.pc c).entered = true) ∧
        entered ⟨4, fun _ => true⟩ s.pc ≤ 1 ∧
        ∀ c d, s.pc c = .writing → s.pc d ≠ .reading) := by
  have hrun : Machine.holdsAfter (step ⟨4, fun _ => true⟩) init
      [.lockShared 0, .lockShared 1, .lock 2, .lockShared 3, .spurious 3, .resume 3]
      (fun (s : SharedMutexPrivate) => readers ⟨4, fun _ => true⟩ s.pc = 2 ∧
        s.state &&& writeEntered ≠ 0 ∧ (s.pc 2).isBlocked = true ∧
        (s.pc 3).isBlocked = true) = true := by
    decide +kernel
  obtain ⟨s, hreach, hr, hw, h2, h3⟩ := Machine.exists_of_holdsAfter _ hrun
  exact ⟨s, hreach, hr, hw, h2, h3, lockWord_of_reach hreach⟩

/-! ### Spurious wake-ups strand a writer -/

/-- **A spurious wake-up strands a writer on `wList1`.**  Writer `0` holds the lock; writer `1`
and reader `2` wait on `wList1`.  Writer `0`'s `Unlock` pops and wakes writer `1` and stops
after it.  Reader `2` wakes spuriously and takes the lock shared with its node still on
`wList1`; writer `1` enters and waits on `wList2`; writer `3` queues on `wList1` behind the
stale node.  Reader `2`'s `Unlock` wakes writer `1`, which takes the lock and releases it: its
`NotifyAll(wList1)` pops the stale node, whose `notify_one` reaches nobody, sees the writer
first on the list and stops.  Writer `3` is left on `wList1` with `state == 0` and every other
caller idle. -/
theorem noStrand_fails :
    ∃ s, Machine.Reach (step ⟨4, fun _ => true⟩) init s ∧ ¬ NoStrand ⟨4, fun _ => true⟩ s ∧
      entries ⟨4, fun _ => true⟩ s .wList1 = [3] ∧ s.pc 3 = .blocked .write ∧ s.state = 0 ∧
      ∀ c, c < 3 → s.pc c = .idle := by
  have hrun : Machine.holdsAfter (step ⟨4, fun _ => true⟩) init
      [.lock 0, .lock 1, .lockShared 2, .unlock 0, .spurious 2, .resume 2, .resume 1, .lock 3,
        .unlock 2, .resume 1, .unlock 1]
      (fun (s : SharedMutexPrivate) => ¬ NoStrand ⟨4, fun _ => true⟩ s ∧
        entries ⟨4, fun _ => true⟩ s .wList1 = [3] ∧
        s.pc 3 = RwPc.blocked Gate.write ∧ s.state = 0 ∧ ∀ c : Nat, c < 3 → s.pc c = RwPc.idle) =
        true := by
    decide +kernel
  exact Machine.exists_of_holdsAfter _ hrun

end SharedMutexPrivate

end Ffrt.Sync

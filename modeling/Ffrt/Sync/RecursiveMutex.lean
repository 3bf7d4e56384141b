import Ffrt.Support.Machine

/-!
# Sync — Recursive mutex

`RecursiveMutexPrivate` (`src/sync/mutex.cpp`, `src/sync/mutex_private.h`): the owner pair
`taskLockNums`, a `uint64_t` identity and a `uint32_t` count, which `fMutex` protects, and the
inner `mutexPrivate` `mt`, taken and released outside `fMutex`.  Each `fMutex` section is one
step of its caller, and so is each call on `mt`; `mt` itself is the caller that holds it, its
`lock` blocking while another does (`Sync.Mutex` models it in full).

The counts each caller has taken and not yet given back are kept beside the state, as
`outstanding`: no field of the source, they are what the owner pair is meant to record.  A
caller calls `unlock` only while it has one outstanding.

* `reach_acquire`, `reach_relock`, `reach_release`: the uncontended `lock`, `k` re-entries of the
  owner, and the owner's last `unlock`, each as a run from any state where it applies.
* `recursiveMutex_wraps`: after `2 ^ 32 + 1` nested locks the count reads `1`, so one `unlock`
  releases `mt` while the owner still has `2 ^ 32` locks outstanding, and another caller takes
  the mutex.
-/

namespace Ffrt.Sync

/-- `UINT64_MAX`, the identity of no owner. -/
def uint64Max : Nat := 2 ^ 64 - 1

/-- The callers of a recursive mutex, `0`, ..., `n - 1`: which of them run in a coroutine task
(`USE_COROUTINE` and `task != nullptr`), and the thread id or task id of each. -/
structure RecCallers where
  n : Nat
  isTask : Nat → Bool
  tid : Nat → Nat
  gid : Nat → Nat

/-- The identity a caller records in `taskLockNums.first`: `GetTid()` on the thread path,
`task->gid | 0x8000000000000000` on the coroutine path. -/
def RecCallers.ident (C : RecCallers) (c : Nat) : Nat :=
  if C.isTask c then C.gid c ||| 0x8000000000000000 else C.tid c

/-- Where a caller is between the steps of `lock`, `try_lock` and `unlock`. -/
inductive RecPc
  /-- Not in a call, or back from one. -/
  | idle
  /-- `lock` found another owner and released `fMutex`: `mt.lock()` is next. -/
  | lockMt
  /-- `lock` holds `mt`: recording itself under `fMutex` is next. -/
  | lockSet
  /-- `try_lock` found no owner and released `fMutex`: `mt.try_lock()` is next. -/
  | tryMt
  /-- `try_lock` holds `mt`: recording itself under `fMutex` is next. -/
  | trySet
  /-- `unlock` recorded no owner and released `fMutex`: `mt.unlock()` is next. -/
  | unlockMt
  deriving DecidableEq, Repr

/-- A `RecursiveMutexPrivate`: `taskLockNums`, the caller holding `mt`, where each caller is and
what `try_lock` last returned to it, and the locks each caller has outstanding. -/
@[ext]
structure RecursiveMutex where
  first : Nat
  second : Nat
  mt : Option Nat
  pc : Nat → RecPc
  ret : Nat → Bool
  outstanding : Nat → Nat

/-- The actions, each named by its caller. -/
inductive RecAction
  /-- `lock`'s first `fMutex` section. -/
  | lock (c : Nat)
  /-- `try_lock`'s first `fMutex` section. -/
  | tryLock (c : Nat)
  /-- `unlock`'s `fMutex` section. -/
  | unlock (c : Nat)
  /-- The caller's next step inside its call. -/
  | resume (c : Nat)
  deriving DecidableEq, Repr

namespace RecursiveMutex

/-- The mutex before any call: `(UINT64_MAX, 0)`, `mt` free. -/
def init : RecursiveMutex := ⟨uint64Max, 0, none, fun _ => .idle, fun _ => false, fun _ => 0⟩

/-- Caller `c` moves to `p`. -/
@[simps first second mt ret outstanding]
def setPc (s : RecursiveMutex) (c : Nat) (p : RecPc) : RecursiveMutex :=
  { s with pc := Function.update s.pc c p }

/-- Caller `c` has taken the mutex once more. -/
@[simps]
def took (s : RecursiveMutex) (c : Nat) : RecursiveMutex :=
  { s with outstanding := Function.update s.outstanding c (s.outstanding c + 1) }

/-- `taskLockNums.second += 1`, in 32 bits. -/
@[simps]
def incr (s : RecursiveMutex) : RecursiveMutex := { s with second := (s.second + 1) % 2 ^ 32 }

/-- `try_lock` returns `r` to caller `c`. -/
@[simps]
def setRet (s : RecursiveMutex) (c : Nat) (r : Bool) : RecursiveMutex :=
  { s with ret := Function.update s.ret c r }

/-- `lock`'s first section: the owner counts once more; any other caller goes to `mt.lock()`. -/
def lock (C : RecCallers) (s : RecursiveMutex) (c : Nat) : RecursiveMutex :=
  if s.first ≠ C.ident c then s.setPc c .lockMt else s.incr.took c

/-- `try_lock`'s first section: with no owner, `mt.try_lock()` is next; the owner counts once
more and gets `true`; any other caller gets `false`. -/
def tryLock (C : RecCallers) (s : RecursiveMutex) (c : Nat) : RecursiveMutex :=
  if s.first = uint64Max then s.setPc c .tryMt
  else if s.first = C.ident c then (s.incr.took c).setRet c true
  else s.setRet c false

/-- `unlock`'s section: a caller that is not the owner returns; the owner at count `1` records
no owner and goes to `mt.unlock()`; else the count goes down by one, in 32 bits. -/
def unlock (C : RecCallers) (s : RecursiveMutex) (c : Nat) : RecursiveMutex :=
  let s := { s with outstanding := Function.update s.outstanding c (s.outstanding c - 1) }
  if s.first ≠ C.ident c then s
  else if s.second = 1 then { s.setPc c .unlockMt with first := uint64Max, second := 0 }
  else { s with second := (s.second + 2 ^ 32 - 1) % 2 ^ 32 }

/-- `taskLockNums = std::make_pair(id, 1)`, by the caller that took `mt`; its call returns. -/
def record (C : RecCallers) (s : RecursiveMutex) (c : Nat) : RecursiveMutex :=
  { (s.setPc c .idle).took c with first := C.ident c, second := 1 }

/-- The caller's next step: `mt.lock()` blocks while another caller holds `mt`. -/
def resume (C : RecCallers) (s : RecursiveMutex) (c : Nat) : Option RecursiveMutex :=
  match s.pc c with
  | .idle => none
  | .lockMt => if s.mt = none then some { s.setPc c .lockSet with mt := some c } else none
  | .lockSet => some (s.record C c)
  | .tryMt =>
      if s.mt = none then some { s.setPc c .trySet with mt := some c }
      else some ((s.setPc c .idle).setRet c false)
  | .trySet => some ((s.record C c).setRet c true)
  | .unlockMt => some { s.setPc c .idle with mt := none }

/-- What the action does; `none` while it blocks. -/
def exec (C : RecCallers) (s : RecursiveMutex) : RecAction → Option RecursiveMutex
  | .lock c => some (s.lock C c)
  | .tryLock c => some (s.tryLock C c)
  | .unlock c => some (s.unlock C c)
  | .resume c => s.resume C c

/-- The action's caller is one of the callers; it starts a call only when in none, and it
unlocks only while it has a lock outstanding. -/
def Enabled (C : RecCallers) (s : RecursiveMutex) : RecAction → Prop
  | .lock c | .tryLock c => c < C.n ∧ s.pc c = .idle
  | .unlock c => c < C.n ∧ s.pc c = .idle ∧ 0 < s.outstanding c
  | .resume c => c < C.n

instance (C : RecCallers) (s : RecursiveMutex) : (a : RecAction) → Decidable (Enabled C s a)
  | .lock _ | .tryLock _ => inferInstanceAs (Decidable (_ ∧ _))
  | .unlock _ => inferInstanceAs (Decidable (_ ∧ _ ∧ _))
  | .resume _ => inferInstanceAs (Decidable (_ < _))

def step (C : RecCallers) (s : RecursiveMutex) (a : RecAction) : Option RecursiveMutex :=
  if Enabled C s a then s.exec C a else none

/-! ### Runs of one caller -/

section Runs

variable {C : RecCallers} {s : RecursiveMutex} {c : Nat}

@[simp] theorem setPc_pc (p : RecPc) (d : Nat) :
    (s.setPc c p).pc d = if d = c then p else s.pc d := by
  simp [setPc, Function.update_apply]

/-- A caller back to `idle` leaves the callers where they were. -/
theorem update_idle (hpc : s.pc c = .idle) : Function.update s.pc c .idle = s.pc := by
  rw [← hpc, Function.update_eq_self]

/-- The mutex after the uncontended `lock` of `c`: `c` owns it once, and holds `mt`. -/
def acquired (C : RecCallers) (s : RecursiveMutex) (c : Nat) : RecursiveMutex :=
  { s.took c with first := C.ident c, second := 1, mt := some c }

/-- **The uncontended `lock`.**  With no owner and `mt` free, `lock` by an idle caller runs its
three steps and returns owning the mutex once. -/
theorem reach_acquire (hc : c < C.n) (hpc : s.pc c = .idle) (hfree : s.first = uint64Max)
    (hid : C.ident c ≠ uint64Max) (hmt : s.mt = none) :
    Machine.Reach (step C) s (s.acquired C c) := by
  have h₁ : step C s (.lock c) = some (s.setPc c .lockMt) := by
    have hne : s.first ≠ C.ident c := by rw [hfree]; exact Ne.symm hid
    simp [step, Enabled, exec, lock, hc, hpc, hne]
  have h₂ : step C (s.setPc c .lockMt) (.resume c) =
      some { s.setPc c .lockSet with mt := some c } := by
    simp [step, Enabled, exec, resume, hc, hmt, setPc]
  have h₃ : step C { s.setPc c .lockSet with mt := some c } (.resume c) =
      some (s.acquired C c) := by
    simp only [step, Enabled, hc, exec, resume, setPc_pc, if_pos, Option.some.injEq]
    ext <;> simp [record, acquired, took, setPc, update_idle hpc]
  exact .next _ (.next _ (.one _ h₁) h₂) h₃

/-- The mutex after `k` more `lock`s by its owner `c`. -/
def relocked (s : RecursiveMutex) (c k : Nat) : RecursiveMutex :=
  { s with
    second := (s.second + k) % 2 ^ 32
    outstanding := Function.update s.outstanding c (s.outstanding c + k) }

/-- **`k` re-entries of the owner.**  Each `lock` of the owner takes one step and adds one to
the count, in 32 bits. -/
theorem reach_relock (hc : c < C.n) (hpc : s.pc c = .idle) (hown : s.first = C.ident c)
    (hsec : s.second < 2 ^ 32) (k : Nat) :
    Machine.Reach (step C) s (s.relocked c k) := by
  -- induction on the re-entries, each one `lock` of the owner
  induction k with
  | zero =>
      have : s.relocked c 0 = s := by
        ext <;> simp only [relocked, Nat.add_zero, Nat.mod_eq_of_lt hsec, Function.update_eq_self]
      rw [this]
      exact .init
  | succ k ih =>
      have hstep : step C (s.relocked c k) (.lock c) = some (s.relocked c (k + 1)) := by
        simp only [step, Enabled, relocked, hc, hpc, and_self, if_true, exec, lock, hown,
          ne_eq, not_true_eq_false, Option.some.injEq]
        ext <;> simp [incr, took, Nat.add_assoc, Function.update_apply]
      exact .next _ ih hstep

/-- The mutex after its owner `c`'s last `unlock`: no owner, `mt` free. -/
def released (s : RecursiveMutex) (c : Nat) : RecursiveMutex :=
  { s with
    first := uint64Max
    second := 0
    mt := none
    outstanding := Function.update s.outstanding c (s.outstanding c - 1) }

/-- **The owner's last `unlock`.**  At count `1`, the owner's `unlock` records no owner and
then releases `mt`. -/
theorem reach_release (hc : c < C.n) (hpc : s.pc c = .idle) (hown : s.first = C.ident c)
    (hone : s.second = 1) (hout : 0 < s.outstanding c) :
    Machine.Reach (step C) s (s.released c) := by
  let t : RecursiveMutex :=
    { s with
      first := uint64Max
      second := 0
      pc := Function.update s.pc c .unlockMt
      outstanding := Function.update s.outstanding c (s.outstanding c - 1) }
  have h₁ : step C s (.unlock c) = some t := by
    simp only [step, Enabled, hc, hpc, hout, and_self, if_true, exec, unlock, hown, ne_eq,
      not_true_eq_false, hone, Option.some.injEq]
    rfl
  have h₂ : step C t (.resume c) = some (s.released c) := by
    simp only [step, Enabled, hc, if_true, exec, resume, t, Function.update_self,
      Option.some.injEq]
    ext <;> simp [released, setPc, update_idle hpc]
  exact .next _ (.one _ h₁) h₂

end Runs

/-! ### The count wraps -/

/-- Two threads, with thread ids `1` and `2`. -/
def twoThreads : RecCallers := ⟨2, fun _ => false, fun c => c + 1, fun _ => 0⟩

/-- **The owner's count wraps.**  Thread `0` locks the mutex `2 ^ 32 + 1` times, which leaves
the `uint32_t` count at `1`, and unlocks it once: that `unlock` records no owner and releases
`mt`, though thread `0` still has `2 ^ 32` locks outstanding.  Thread `1`'s `lock` then takes
the mutex, and both threads hold it. -/
theorem recursiveMutex_wraps :
    ∃ s, Machine.Reach (step twoThreads) init s ∧ (∀ c, s.pc c = .idle) ∧
      s.outstanding 0 = 2 ^ 32 ∧ s.outstanding 1 = 1 ∧
      s.first = twoThreads.ident 1 ∧ s.second = 1 ∧ s.mt = some 1 := by
  -- the first `lock` of thread `0`, its `2 ^ 32` re-entries, one `unlock`, and thread `1`'s `lock`
  let s₁ := init.acquired twoThreads 0
  let s₂ := s₁.relocked 0 (2 ^ 32)
  let s₃ := s₂.released 0
  have h₁ : Machine.Reach (step twoThreads) init s₁ :=
    reach_acquire (by decide) rfl rfl (by decide) rfl
  have h₂ : Machine.Reach (step twoThreads) s₁ s₂ :=
    reach_relock (by decide) rfl rfl (by decide) _
  -- `1 + 2 ^ 32` is `1` in 32 bits
  have hsec : s₂.second = 1 := by
    show (1 + 2 ^ 32) % 2 ^ 32 = 1
    decide
  have h₃ : Machine.Reach (step twoThreads) s₂ s₃ :=
    reach_release (by decide) rfl rfl hsec (by simp [s₂, s₁, relocked, acquired, took, init])
  have h₄ : Machine.Reach (step twoThreads) s₃ (s₃.acquired twoThreads 1) :=
    reach_acquire (by decide) rfl rfl (by decide) rfl
  refine ⟨_, h₁.trans (h₂.trans (h₃.trans h₄)), fun c => rfl, ?_, ?_, rfl, rfl, rfl⟩
  · simp [s₃, s₂, s₁, acquired, released, relocked, took, init]
  · simp [s₃, s₂, s₁, acquired, released, relocked, took, init]

end RecursiveMutex

end Ffrt.Sync

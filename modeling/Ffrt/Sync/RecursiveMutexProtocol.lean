import Ffrt.Sync.RecursiveMutex

/-!
# Sync — Recursive mutex protocol

What `RecursiveMutexPrivate` keeps on the runs where its `uint32_t` count cannot wrap: no
caller ever has `2 ^ 32` locks outstanding (`belowWrap`, the steps `Machine.restrict` keeps).
The callers' identities are apart (`RecCallers.Apart`): thread ids below `2 ^ 63`, task ids
below `2 ^ 63 - 1`, so that a task's identity, its id with the top bit set, is neither a
thread's nor `UINT64_MAX`.  `recursiveMutex_wraps` shows what the bound excludes.

* `RecInv`: a caller with locks outstanding is the owner the pair records, with its count; it
  holds `mt` and is in no call.  The pair records an owner only while one has locks
  outstanding, and `mt` is otherwise held only by a caller in one of the source's two windows:
  between taking `mt` and recording itself under `fMutex`, and between recording no owner and
  `mt.unlock()`.  One lemma per transition keeps it (`RecInv.relock`, `RecInv.unlockCount`,
  `RecInv.unlockLast`, `RecInv.takeMt`, `RecInv.record`, `RecInv.releaseMt`), so every step
  below the wrap does (`recInv_step`).
* `recursiveMutex_of_reachBelow`: on every such run the pair is `(UINT64_MAX, 0)` exactly when
  no caller has a lock outstanding and otherwise names the one that does with its count, `mt`
  is held by it or by a caller in a window, the owner's `lock` and `try_lock` return at once,
  and a caller with no lock outstanding unlocks nothing.
-/

namespace Ffrt.Sync

/-- The identities the callers record are apart: thread ids are distinct among threads and
below `2 ^ 63`, task ids are distinct among tasks and below `2 ^ 63 - 1`, so that no two
callers record one identity and none records `UINT64_MAX`. -/
structure RecCallers.Apart (C : RecCallers) : Prop where
  tid_lt : ∀ c < C.n, C.isTask c = false → C.tid c < 2 ^ 63
  gid_lt : ∀ c < C.n, C.isTask c = true → C.gid c < 2 ^ 63 - 1
  tid_inj : ∀ c < C.n, ∀ d < C.n, C.isTask c = false → C.isTask d = false →
    C.tid c = C.tid d → c = d
  gid_inj : ∀ c < C.n, ∀ d < C.n, C.isTask c = true → C.isTask d = true →
    C.gid c = C.gid d → c = d

namespace RecCallers

variable {C : RecCallers} {c d : Nat}

theorem ident_thread (ht : C.isTask c = false) : C.ident c = C.tid c := by
  simp [ident, ht]

/-- Below `2 ^ 63`, setting the top bit of a task id adds `2 ^ 63`. -/
theorem ident_task (ht : C.isTask c = true) (hg : C.gid c < 2 ^ 63) :
    C.ident c = C.gid c + 2 ^ 63 := by
  rw [ident, if_pos ht]
  exact Nat.or_two_pow_eq_add_of_lt hg

namespace Apart

variable (hA : C.Apart)
include hA

/-- No caller records `UINT64_MAX`, the identity of no owner. -/
theorem ident_ne (hc : c < C.n) : C.ident c ≠ uint64Max := by
  cases ht : C.isTask c
  · have := hA.tid_lt c hc ht
    rw [ident_thread ht, uint64Max]
    omega
  · have := hA.gid_lt c hc ht
    rw [ident_task ht (by omega), uint64Max]
    omega

/-- No two callers record one identity: a thread's is below `2 ^ 63`, a task's is not. -/
theorem ident_inj (hc : c < C.n) (hd : d < C.n) (h : C.ident c = C.ident d) : c = d := by
  cases htc : C.isTask c <;> cases htd : C.isTask d
  · rw [ident_thread htc, ident_thread htd] at h
    exact hA.tid_inj c hc d hd htc htd h
  · have := hA.tid_lt c hc htc
    rw [ident_thread htc, ident_task htd (by have := hA.gid_lt d hd htd; omega)] at h
    omega
  · have := hA.tid_lt d hd htd
    rw [ident_task htc (by have := hA.gid_lt c hc htc; omega), ident_thread htd] at h
    omega
  · rw [ident_task htc (by have := hA.gid_lt c hc htc; omega),
      ident_task htd (by have := hA.gid_lt d hd htd; omega)] at h
    exact hA.gid_inj c hc d hd htc htd (by omega)

end Apart

end RecCallers

/-- A caller between taking `mt` and recording itself, or between recording no owner and
releasing `mt`: the windows in which it holds `mt` while the pair records no owner. -/
def RecPc.holdsMt : RecPc → Bool
  | .lockSet | .trySet | .unlockMt => true
  | .idle | .lockMt | .tryMt => false

namespace RecursiveMutex

/-- No caller has `2 ^ 32` locks outstanding, so none can wrap the `uint32_t` count. -/
def belowWrap (C : RecCallers) (s : RecursiveMutex) : Bool :=
  decide (∀ c < C.n, s.outstanding c < 2 ^ 32)

variable {C : RecCallers} {s t : RecursiveMutex} {c d : Nat} {a : RecAction}

theorem lt_of_belowWrap (h : belowWrap C s = true) (hc : c < C.n) : s.outstanding c < 2 ^ 32 :=
  of_decide_eq_true h c hc

/-- A step is an enabled action and what it does. -/
theorem step_eq (h : step C s a = some t) : Enabled C s a ∧ s.exec C a = some t := by
  unfold step at h
  split_ifs at h with he
  exact ⟨he, h⟩

/-- The bookkeeping of a `RecursiveMutexPrivate` as the source means it. -/
structure RecInv (C : RecCallers) (s : RecursiveMutex) : Prop where
  /-- A caller with locks outstanding is the owner the pair records, with its count; it holds
  `mt` and is in no call. -/
  owner : ∀ c, 0 < s.outstanding c →
    c < C.n ∧ s.first = C.ident c ∧ s.second = s.outstanding c ∧ s.mt = some c ∧
      s.pc c = .idle
  /-- The pair records an owner only while one has locks outstanding. -/
  owned : s.first ≠ uint64Max → ∃ c, 0 < s.outstanding c
  /-- With no owner recorded, the count is `0`. -/
  free : s.first = uint64Max → s.second = 0
  /-- A caller in a window holds `mt`, and the pair records no owner. -/
  window : ∀ c, (s.pc c).holdsMt → s.mt = some c ∧ s.first = uint64Max
  /-- `mt` is held by the owner or by a caller in a window. -/
  mt : ∀ c, s.mt = some c → 0 < s.outstanding c ∨ (s.pc c).holdsMt
  /-- The count is a `uint32_t`. -/
  second_lt : s.second < 2 ^ 32

namespace RecInv

theorem init : RecInv C RecursiveMutex.init where
  owner _ h := absurd h (Nat.lt_irrefl 0)
  owned h := absurd rfl h
  free _ := rfl
  window _ h := by simp [RecursiveMutex.init, RecPc.holdsMt] at h
  mt _ h := nomatch h
  second_lt := by decide

variable (hI : RecInv C s)
include hI

/-- A caller whose identity the pair does not record has no lock outstanding. -/
theorem outstanding_of_ne (hne : s.first ≠ C.ident c) : s.outstanding c = 0 := by
  by_contra hc
  exact hne (hI.owner c (Nat.pos_of_ne_zero hc)).2.1

/-- A caller in a call has no lock outstanding. -/
theorem outstanding_of_ne_idle (hpc : s.pc c ≠ .idle) : s.outstanding c = 0 := by
  by_contra hc
  exact hpc (hI.owner c (Nat.pos_of_ne_zero hc)).2.2.2.2

/-- With no owner recorded, no caller has a lock outstanding. -/
theorem outstanding_of_free (hA : C.Apart) (hf : s.first = uint64Max) (d : Nat) :
    s.outstanding d = 0 := by
  by_contra hd
  obtain ⟨hdn, hfirst, -⟩ := hI.owner d (Nat.pos_of_ne_zero hd)
  exact hA.ident_ne hdn (hfirst ▸ hf)

/-- A caller whose identity the pair records is its owner. -/
theorem pos_of_first (hA : C.Apart) (hc : c < C.n) (hfirst : s.first = C.ident c) :
    0 < s.outstanding c := by
  obtain ⟨o, ho⟩ := hI.owned (hfirst ▸ hA.ident_ne hc)
  obtain ⟨hon, hfo, -⟩ := hI.owner o ho
  rwa [hA.ident_inj hc hon (hfirst.symm.trans hfo)]

/-- **One owner.**  Two callers with locks outstanding are one. -/
theorem eq_of_pos (hA : C.Apart) (hc : 0 < s.outstanding c) (hd : 0 < s.outstanding d) :
    d = c := by
  obtain ⟨hcn, hfc, -⟩ := hI.owner c hc
  obtain ⟨hdn, hfd, -⟩ := hI.owner d hd
  exact hA.ident_inj hdn hcn (hfd.symm.trans hfc)

/-- While `c` holds `mt`, no other caller is in a window. -/
theorem eq_of_holdsMt (hmt : s.mt = some c) (hd : (s.pc d).holdsMt) : d = c :=
  Option.some.inj ((hI.window d hd).1.symm.trans hmt)

/-- The owner's count is its number of outstanding locks. -/
theorem second_eq (hc : 0 < s.outstanding c) : s.second = s.outstanding c :=
  (hI.owner c hc).2.2.1

/-- The owner holds `mt`. -/
theorem mt_eq (hc : 0 < s.outstanding c) : s.mt = some c :=
  (hI.owner c hc).2.2.2.1

/-- While a caller has a lock outstanding, the pair records an owner. -/
theorem first_ne (hc : 0 < s.outstanding c) : s.first ≠ uint64Max := fun hf => by
  have := hI.free hf
  have := hI.second_eq hc
  omega

/-- With `mt` free, no caller has a lock outstanding. -/
theorem outstanding_of_mt (hmt : s.mt = none) (d : Nat) : s.outstanding d = 0 := by
  by_contra hd
  have h := hI.mt_eq (Nat.pos_of_ne_zero hd)
  rw [hmt] at h
  cases h

/-- With `mt` free, the pair records no owner. -/
theorem first_of_mt (hmt : s.mt = none) : s.first = uint64Max := by
  by_contra hf
  obtain ⟨d, hd⟩ := hI.owned hf
  rw [hI.outstanding_of_mt hmt d] at hd
  exact absurd hd (Nat.lt_irrefl 0)

/-! ### What each step keeps -/

/-- `try_lock`'s answer is no part of the bookkeeping. -/
theorem setRet (r : Bool) : RecInv C (s.setRet c r) :=
  ⟨hI.owner, hI.owned, hI.free, hI.window, hI.mt, hI.second_lt⟩

/-- A caller with no lock outstanding moves between places outside the windows: `lock` and
`try_lock` going to `mt`, and `mt.try_lock()` failing. -/
theorem setPc {p : RecPc} (hout : s.outstanding c = 0) (hc : (s.pc c).holdsMt = false)
    (hp : p.holdsMt = false) : RecInv C (s.setPc c p) where
  owner d hd := by
    have hdc : d ≠ c := by rintro rfl; simp [hout] at hd
    simpa [hdc] using hI.owner d (by simpa using hd)
  owned := by simpa using hI.owned
  free := by simpa using hI.free
  window d hd := by
    have hdc : d ≠ c := by rintro rfl; simp [hp] at hd
    simpa using hI.window d (by simpa [hdc] using hd)
  mt d hd := by
    have hdc : d ≠ c := by
      rintro rfl
      rcases hI.mt d (by simpa using hd) with h | h
      · omega
      · simp [hc] at h
    simpa [hdc] using hI.mt d (by simpa using hd)
  second_lt := by simpa using hI.second_lt

/-- **The owner's re-entry.**  Below the wrap, the `uint32_t` count stays the owner's
outstanding locks. -/
theorem relock (hA : C.Apart) (hc : 0 < s.outstanding c) (hb : s.outstanding c + 1 < 2 ^ 32) :
    RecInv C (s.incr.took c) where
  owner d hd := by
    obtain ⟨hcn, hfc, hsc, hmc, hpc⟩ := hI.owner c hc
    have hdc : d = c := by
      by_contra hdc
      exact hdc (hI.eq_of_pos hA hc (by simpa [hdc] using hd))
    subst hdc
    simp only [took_outstanding, took_second, incr_outstanding, incr_second,
      Function.update_self, took_first, incr_first, took_mt, incr_mt, took_pc, incr_pc]
    exact ⟨hcn, hfc, by rw [hsc, Nat.mod_eq_of_lt hb], hmc, hpc⟩
  owned _ := ⟨c, by simp⟩
  free hf := absurd hf (hI.first_ne hc)
  window d hd := by simpa using hI.window d (by simpa using hd)
  mt d hd := by
    rcases hI.mt d (by simpa using hd) with h | h
    · left
      simp only [took_outstanding, incr_outstanding, Function.update_apply]
      split_ifs <;> omega
    · exact .inr (by simpa using h)
  second_lt := Nat.mod_lt _ (by decide)

/-- **The owner's `unlock` above count `1`** takes one off the count, in 32 bits. -/
theorem unlockCount (hA : C.Apart) (hc : 0 < s.outstanding c) (h1 : s.second ≠ 1) :
    RecInv C { s with
      outstanding := Function.update s.outstanding c (s.outstanding c - 1)
      second := (s.second + 2 ^ 32 - 1) % 2 ^ 32 } where
  owner d hd := by
    obtain ⟨hcn, hfc, hsc, hmc, hpc⟩ := hI.owner c hc
    have hdc : d = c := by
      by_contra hdc
      exact hdc (hI.eq_of_pos hA hc (by simpa [hdc] using hd))
    subst hdc
    -- the count was at least `2`, so it goes down without wrapping
    have hsub : (s.second + 2 ^ 32 - 1) % 2 ^ 32 = s.second - 1 := by
      have := hI.second_lt
      rw [show s.second + 2 ^ 32 - 1 = (s.second - 1) + 2 ^ 32 by omega, Nat.add_mod_right,
        Nat.mod_eq_of_lt (by omega)]
    simp only [Function.update_self]
    exact ⟨hcn, hfc, by rw [hsub, hsc], hmc, hpc⟩
  owned _ := ⟨c, by simp; have := hI.second_eq hc; omega⟩
  free hf := absurd hf (hI.first_ne hc)
  window := hI.window
  mt d hd := by
    rcases hI.mt d hd with h | h
    · left
      have hdc : d = c := hI.eq_of_pos hA hc h
      subst hdc
      have := hI.second_eq hc
      simp only [Function.update_self]
      omega
    · exact .inr h
  second_lt := Nat.mod_lt _ (by decide)

/-- **The owner's last `unlock`** records no owner and goes to release `mt`. -/
theorem unlockLast (hA : C.Apart) (hc : 0 < s.outstanding c) (h1 : s.second = 1) :
    RecInv C { ({ s with
      outstanding := Function.update s.outstanding c (s.outstanding c - 1) }).setPc c
        .unlockMt with first := uint64Max, second := 0 } where
  owner d hd := by
    have hsc := hI.second_eq hc
    by_cases hdc : d = c
    · subst hdc
      simp only [setPc_outstanding, Function.update_self] at hd
      omega
    · exact absurd (hI.eq_of_pos hA hc (by simpa [hdc] using hd)) hdc
  owned h := absurd rfl h
  free _ := rfl
  window d hd := by
    have hmc := hI.mt_eq hc
    by_cases hdc : d = c
    · subst hdc
      exact ⟨hmc, rfl⟩
    · exact absurd (hI.eq_of_holdsMt hmc (by simpa [hdc] using hd)) hdc
  mt d hd := by
    have hdc : d = c := Option.some.inj (hd.symm.trans (hI.mt_eq hc))
    subst hdc
    exact .inr (by simp [RecPc.holdsMt])
  second_lt := Nat.two_pow_pos 32

/-- `mt.lock()` or `mt.try_lock()` finding `mt` free: the caller enters its window. -/
theorem takeMt {p : RecPc} (hmt : s.mt = none) (hp : p.holdsMt = true) :
    RecInv C { s.setPc c p with mt := some c } where
  owner d hd := absurd (hI.outstanding_of_mt hmt d) (Nat.pos_iff_ne_zero.mp hd)
  owned h := absurd (hI.first_of_mt hmt) h
  free := hI.free
  window d hd := by
    by_cases hdc : d = c
    · subst hdc
      exact ⟨rfl, hI.first_of_mt hmt⟩
    · exact absurd (hI.window d (by simpa [hdc] using hd)).1 (by rw [hmt]; simp)
  mt d hd := by
    cases Option.some.inj hd
    exact .inr (by simpa using hp)
  second_lt := hI.second_lt

/-- **Recording itself.**  The caller in `lock`'s or `try_lock`'s window becomes the owner,
with count `1`. -/
theorem record (hA : C.Apart) (hc : c < C.n) (hpc : (s.pc c).holdsMt) :
    RecInv C (s.record C c) where
  owner d hd := by
    obtain ⟨hmc, hf⟩ := hI.window c hpc
    by_cases hdc : d = c
    · subst hdc
      simp [RecursiveMutex.record, hc, hmc, hI.outstanding_of_free hA hf]
    · simp [RecursiveMutex.record, hdc, hI.outstanding_of_free hA hf] at hd
  owned _ := ⟨c, by simp [RecursiveMutex.record]⟩
  free hf := absurd hf (hA.ident_ne hc)
  window d hd := by
    by_cases hdc : d = c
    · subst hdc
      simp [RecursiveMutex.record, RecPc.holdsMt] at hd
    · exact absurd (hI.eq_of_holdsMt (hI.window c hpc).1
        (by simpa [RecursiveMutex.record, hdc] using hd)) hdc
  mt d hd := by
    have hdc : d = c := Option.some.inj (hd.symm.trans (hI.window c hpc).1)
    subst hdc
    exact .inl (by simp [RecursiveMutex.record])
  second_lt := Nat.one_lt_two_pow (by decide)

/-- `mt.unlock()` at the end of the owner's last `unlock`. -/
theorem releaseMt (hA : C.Apart) (hpc : s.pc c = .unlockMt) :
    RecInv C { s.setPc c .idle with mt := none } where
  owner d hd := by
    obtain ⟨-, hf⟩ := hI.window c (by rw [hpc]; rfl)
    simp [hI.outstanding_of_free hA hf] at hd
  owned h := absurd (hI.window c (by rw [hpc]; rfl)).2 h
  free := hI.free
  window d hd := by
    by_cases hdc : d = c
    · subst hdc
      simp [RecPc.holdsMt] at hd
    · exact absurd (hI.eq_of_holdsMt (hI.window c (by rw [hpc]; rfl)).1
        (by simpa [hdc] using hd)) hdc
  mt _ hd := nomatch hd
  second_lt := hI.second_lt

end RecInv

/-- **Every step below the wrap keeps `RecInv`.** -/
theorem recInv_step (hA : C.Apart) (hI : RecInv C s) (he : Enabled C s a)
    (hexec : s.exec C a = some t) (hb : belowWrap C t = true) : RecInv C t := by
  cases a with
  | lock c =>
      obtain ⟨hc, hpc⟩ := he
      cases hexec
      unfold lock at hb ⊢
      split_ifs at hb ⊢ with hne
      · exact hI.setPc (hI.outstanding_of_ne hne) (by rw [hpc]; rfl) rfl
      · -- the owner's re-entry, whose count the bound keeps from wrapping
        have hown := hI.pos_of_first hA hc (not_not.mp hne)
        exact hI.relock hA hown (by simpa using lt_of_belowWrap hb hc)
  | tryLock c =>
      obtain ⟨hc, hpc⟩ := he
      cases hexec
      unfold tryLock at hb ⊢
      split_ifs at hb ⊢ with hfree hown
      · exact hI.setPc (hI.outstanding_of_free hA hfree c) (by rw [hpc]; rfl) rfl
      · have hb' : s.outstanding c + 1 < 2 ^ 32 := by simpa using lt_of_belowWrap hb hc
        exact (hI.relock hA (hI.pos_of_first hA hc hown) hb').setRet true
      · exact hI.setRet false
  | unlock c =>
      obtain ⟨-, -, hout⟩ := he
      cases hexec
      have hown := (hI.owner c hout).2.1
      unfold unlock
      dsimp only
      rw [if_neg (not_not.mpr hown)]
      split_ifs with h1
      · exact hI.unlockLast hA hout h1
      · exact hI.unlockCount hA hout h1
  | resume c =>
      change c < C.n at he
      change s.resume C c = some t at hexec
      unfold resume at hexec
      cases hpc : s.pc c <;> simp only [hpc, reduceCtorEq] at hexec
      case lockMt =>
        split_ifs at hexec with hmt
        cases hexec
        exact hI.takeMt hmt rfl
      case lockSet =>
        cases hexec
        exact hI.record hA he (by rw [hpc]; rfl)
      case tryMt =>
        split_ifs at hexec with hmt <;> cases hexec
        · exact hI.takeMt hmt rfl
        · -- `mt.try_lock()` failed: the caller returns `false` with no lock taken
          have hout := hI.outstanding_of_ne_idle (c := c) (by rw [hpc]; decide)
          exact (hI.setPc hout (by rw [hpc]; rfl) rfl).setRet false
      case trySet =>
        cases hexec
        exact (hI.record hA he (by rw [hpc]; rfl)).setRet true
      case unlockMt =>
        cases hexec
        exact hI.releaseMt hA hpc

theorem recInv_of_reach (hA : C.Apart)
    (h : Machine.Reach (Machine.restrict (step C) (belowWrap C)) init s) : RecInv C s :=
  Machine.Invariant.reach (fun _ _ _ hI hs => by
      obtain ⟨hs, hb⟩ := Machine.restrict_eq_some.mp hs
      obtain ⟨he, hexec⟩ := step_eq hs
      exact recInv_step hA hI he hexec hb) RecInv.init h

/-! ### The bookkeeping below the wrap -/

namespace RecInv

variable (hI : RecInv C s)
include hI

/-- The pair is `(UINT64_MAX, 0)` exactly when no caller has a lock outstanding. -/
theorem free_iff (hA : C.Apart) :
    s.first = uint64Max ∧ s.second = 0 ↔ ∀ c, s.outstanding c = 0 := by
  constructor
  · rintro ⟨hf, -⟩
    exact hI.outstanding_of_free hA hf
  · intro h
    have hf : s.first = uint64Max := by
      by_contra hf
      obtain ⟨c, hc⟩ := hI.owned hf
      exact absurd (h c) (Nat.pos_iff_ne_zero.mp hc)
    exact ⟨hf, hI.free hf⟩

/-- `mt` is held by the owner, or by a caller in one of the windows. -/
theorem mt_iff : s.mt = some c ↔ 0 < s.outstanding c ∨ (s.pc c).holdsMt := by
  refine ⟨hI.mt c, ?_⟩
  rintro (hc | hc)
  · exact hI.mt_eq hc
  · exact (hI.window c hc).1

/-- **The owner's `lock` never blocks**: it returns at once with its count one up. -/
theorem step_lock (hc : 0 < s.outstanding c) : step C s (.lock c) = some (s.relocked c 1) := by
  obtain ⟨hcn, hfc, -, -, hpc⟩ := hI.owner c hc
  simp only [step, Enabled, hcn, hpc, and_self, if_true, exec, lock, hfc, ne_eq,
    not_true_eq_false, if_false, Option.some.injEq]
  ext <;> simp [relocked, Function.update_apply]

/-- **The owner's `try_lock` never fails**: it returns `true` at once with its count one up. -/
theorem step_tryLock (hA : C.Apart) (hc : 0 < s.outstanding c) :
    step C s (.tryLock c) = some ((s.relocked c 1).setRet c true) := by
  obtain ⟨hcn, hfc, -, -, hpc⟩ := hI.owner c hc
  simp only [step, Enabled, hcn, hpc, and_self, if_true, exec, tryLock, hfc, hA.ident_ne hcn,
    if_false, Option.some.injEq]
  ext <;> simp [relocked, Function.update_apply]

/-- **A caller with no lock outstanding unlocks nothing**: the pair records another identity,
and `unlock` returns leaving the mutex as it was. -/
theorem unlock_eq (hA : C.Apart) (hc : c < C.n) (hout : s.outstanding c = 0) :
    s.unlock C c = s := by
  have hne : s.first ≠ C.ident c := fun hf => by
    have := hI.pos_of_first hA hc hf
    omega
  unfold unlock
  dsimp only
  rw [if_pos hne, hout, Nat.zero_sub, ← hout, Function.update_eq_self]

end RecInv

/-- **The recursive mutex's bookkeeping, below the wrap.**  On every run in which no caller
ever has `2 ^ 32` locks outstanding, by callers whose identities are apart: `taskLockNums` is
`(UINT64_MAX, 0)` exactly when no caller has a lock outstanding, and otherwise the identity of
the one caller that does and its number of outstanding locks; `mt` is held by that caller, or
by a caller in the window between taking `mt` and recording itself or between recording no
owner and releasing `mt`; the owner's `lock` and `try_lock` return at once with the count one
up; and an `unlock` by a caller with no lock outstanding leaves the mutex as it was. -/
theorem recursiveMutex_of_reachBelow (hA : C.Apart)
    (h : Machine.Reach (Machine.restrict (step C) (belowWrap C)) init s) :
    (s.first = uint64Max ∧ s.second = 0 ↔ ∀ c, s.outstanding c = 0) ∧
      (∀ c, 0 < s.outstanding c → s.first = C.ident c ∧ s.second = s.outstanding c ∧
        ∀ d, 0 < s.outstanding d → d = c) ∧
      (∀ c, s.mt = some c ↔ 0 < s.outstanding c ∨ (s.pc c).holdsMt) ∧
      (∀ c, 0 < s.outstanding c → step C s (.lock c) = some (s.relocked c 1) ∧
        step C s (.tryLock c) = some ((s.relocked c 1).setRet c true)) ∧
      ∀ c < C.n, s.outstanding c = 0 → s.unlock C c = s := by
  have hI := recInv_of_reach hA h
  refine ⟨hI.free_iff hA, fun c hc => ?_, fun c => hI.mt_iff, fun c hc => ?_,
    fun c hcn hout => hI.unlock_eq hA hcn hout⟩
  · obtain ⟨-, hfc, hsc, -⟩ := hI.owner c hc
    exact ⟨hfc, hsc, fun d hd => hI.eq_of_pos hA hc hd⟩
  · exact ⟨hI.step_lock hc, hI.step_tryLock hA hc⟩

/-- Thread `0` locks twice, nested; thread `1`'s `lock` then waits for `mt`.  The owner's count
is `2`, and the owner's next `lock` only counts once more. -/
theorem recursiveMutex_of_reachBelow_nested :
    twoThreads.Apart ∧ ∃ s, Machine.Reach (Machine.restrict (step twoThreads)
        (belowWrap twoThreads)) init s ∧
      s.outstanding 0 = 2 ∧ s.second = 2 ∧ s.mt = some 0 ∧ s.outstanding 1 = 0 ∧
      ((s.first = uint64Max ∧ s.second = 0 ↔ ∀ c, s.outstanding c = 0) ∧
        (∀ c, 0 < s.outstanding c → s.first = twoThreads.ident c ∧
          s.second = s.outstanding c ∧ ∀ d, 0 < s.outstanding d → d = c) ∧
        (∀ c, s.mt = some c ↔ 0 < s.outstanding c ∨ (s.pc c).holdsMt) ∧
        (∀ c, 0 < s.outstanding c →
          step twoThreads s (.lock c) = some (s.relocked c 1) ∧
          step twoThreads s (.tryLock c) = some ((s.relocked c 1).setRet c true)) ∧
        ∀ c < twoThreads.n, s.outstanding c = 0 → s.unlock twoThreads c = s) := by
  have hA : twoThreads.Apart := ⟨by decide, by decide, by decide, by decide⟩
  have hrun : Machine.holdsAfter (Machine.restrict (step twoThreads) (belowWrap twoThreads))
      init [.lock 0, .resume 0, .resume 0, .lock 0, .lock 1]
      (fun s => s.outstanding 0 = 2 ∧ s.second = 2 ∧ s.mt = some 0 ∧ s.outstanding 1 = 0) =
        true := by
    decide +kernel
  obtain ⟨s, hreach, h0, h2, hmt, h1⟩ := Machine.exists_of_holdsAfter _ hrun
  exact ⟨hA, s, hreach, h0, h2, hmt, h1, recursiveMutex_of_reachBelow hA hreach⟩

end RecursiveMutex

end Ffrt.Sync

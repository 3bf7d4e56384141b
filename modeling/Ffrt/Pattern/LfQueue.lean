import Ffrt.Support.Machine

/-!
# Pattern — the bounded lock-free queue

`mpmc_queue<T>` (`interfaces/kits/cpp/pattern/job_utils.h`), the queue under `lf_queue` and
`job_ring`: a ring of `align2n(cap)` slots, each with the index it next expects a write for
(`iwrite_exp`) and the index it next expects a read for (`iread_exp`), and the global indices
`iwrite_` and `iread_`.  Every atomic load, store and compare-exchange is one step of the thread
that runs it; a producer's write of `data` and its release store of `iread_exp` are one step, as
no other thread reads the slot before that store, and so are a consumer's read of `data` and its
store of `iwrite_exp`.  Indices are unbounded: `uint64_t` wraps only after `2 ^ 64` pushes.

* `iwrite_mono`: along any run `iwrite_` never goes down and the capacity stays, so the values a
  run ever held at once are bounded by the `iwrite_` it ends with.
* `tryPush_fails_not_full`: `try_push` rejects a slot whose `iwrite_exp` is not its own stale
  `iwrite`, and returns `false` even when the slot has moved on because another producer pushed
  and a consumer popped in between; the queue, of capacity `2`, never held more than one value.
-/

namespace Ffrt.Pattern

/-- The loop of `align2n`: `i <<= 1` for each `x >>= 1` that leaves `x` nonzero, at most `64`
times for a `uint64_t`. -/
def align2nLoop : Nat → Nat → Nat → Nat
  | 0, _, i => i
  | fuel + 1, x, i => if x >>> 1 = 0 then i else align2nLoop fuel (x >>> 1) (i <<< 1)

/-- `align2n(x)`: the least power of two at least `x`. -/
def align2n (x : Nat) : Nat :=
  let i := align2nLoop 64 x 1
  if i < x then i <<< 1 else i

example : align2n 2 = 2 ∧ align2n 3 = 4 ∧ align2n 1024 = 1024 := by decide

/-- What the loop of `align2n` computes: `i` times a power of two `q` at most `max x 1`, and
more than half of `x` when the loop has the bits to run out. -/
theorem align2nLoop_spec (fuel x i : Nat) :
    ∃ q, q.isPowerOfTwo ∧ align2nLoop fuel x i = i * q ∧ q ≤ max x 1 ∧
      (x < 2 ^ (fuel + 1) → x < 2 * q) := by
  -- induction on the fuel, each turn halving `x` and doubling `i`
  induction fuel generalizing x i with
  | zero =>
      refine ⟨1, Nat.isPowerOfTwo_one, by simp [align2nLoop], by omega, fun h => ?_⟩
      simpa using h
  | succ fuel ih =>
      by_cases hx : x >>> 1 = 0
      · rw [Nat.shiftRight_eq_div_pow] at hx
        refine ⟨1, Nat.isPowerOfTwo_one, ?_, by omega, fun _ => by omega⟩
        simp [align2nLoop, Nat.shiftRight_eq_div_pow, hx]
      · obtain ⟨q, hq, heq, hle, hlt⟩ := ih (x >>> 1) (i <<< 1)
        refine ⟨q * 2, Nat.isPowerOfTwo_mul_two_of_isPowerOfTwo hq, ?_, ?_, fun h => ?_⟩
        · rw [align2nLoop, if_neg hx, heq, Nat.shiftLeft_eq]
          ring
        · rw [Nat.shiftRight_eq_div_pow] at hx hle
          omega
        · rw [Nat.shiftRight_eq_div_pow] at hlt
          have h' : x / 2 ^ 1 < 2 ^ (fuel + 1) := by
            rw [pow_succ 2 (fuel + 1)] at h
            omega
          have := hlt h'
          omega

/-- The capacity `align2n` gives is a power of two. -/
theorem align2n_isPowerOfTwo (x : Nat) : (align2n x).isPowerOfTwo := by
  obtain ⟨q, hq, heq, -, -⟩ := align2nLoop_spec 64 x 1
  unfold align2n
  dsimp only
  rw [heq, Nat.one_mul]
  split_ifs
  · rw [Nat.shiftLeft_eq, pow_one]
    exact Nat.isPowerOfTwo_mul_two_of_isPowerOfTwo hq
  · exact hq

/-- A capacity asked for within `2 ^ 63` is rounded up to at most `2 ^ 63`, where a `uint64_t`
does not wrap. -/
theorem align2n_le {x : Nat} (hx : x ≤ 2 ^ 63) : align2n x ≤ 2 ^ 63 := by
  obtain ⟨q, ⟨m, rfl⟩, heq, hle, -⟩ := align2nLoop_spec 64 x 1
  unfold align2n
  dsimp only
  rw [heq, Nat.one_mul]
  split_ifs with hlt
  · -- `2 ^ m < x ≤ 2 ^ 63`, so doubling stays within `2 ^ 63`
    have hlt' : 2 ^ m < 2 ^ 63 := Nat.lt_of_lt_of_le hlt hx
    have hm : m < 63 := (Nat.pow_lt_pow_iff_right (by norm_num)).mp hlt'
    rw [Nat.shiftLeft_eq, pow_one, ← pow_succ]
    exact Nat.pow_le_pow_right (by norm_num) hm
  · have : (1 : Nat) ≤ 2 ^ 63 := Nat.one_le_two_pow
    omega

/-- A slot: `data` (`none` before its first write) and its two sequence numbers. -/
structure Item (α : Type) where
  data : Option α
  iwriteExp : Nat
  ireadExp : Nat

/-- Where a thread is in `try_push` and `try_pop`, with the local index it holds. -/
inductive QPc (α : Type)
  | idle
  /-- `try_push` loaded `iwrite`: the check of `iwrite_exp` is next. -/
  | pushCheck (data : α) (iwrite : Nat)
  /-- The check passed: `iwrite_.compare_exchange_weak(iwrite, iwrite + 1)` is next. -/
  | pushCas (data : α) (iwrite : Nat)
  /-- The index is claimed: writing `data` and publishing `iread_exp` is next. -/
  | pushStore (data : α) (iwrite : Nat)
  /-- `try_pop` loaded `iread`: the check of `iread_exp` is next. -/
  | popCheck (iread : Nat)
  /-- The check passed: `iread_.compare_exchange_weak(iread, iread + 1)` is next. -/
  | popCas (iread : Nat)
  /-- The index is claimed: reading `data` and releasing the slot is next. -/
  | popLoad (iread : Nat)
  deriving DecidableEq

/-- The thread is in no call. -/
def QPc.isIdle {α : Type} : QPc α → Bool
  | .idle => true
  | _ => false

/-- An `mpmc_queue`, with the threads calling it: where each is, what its last call returned,
and the value its last successful `try_pop` gave it. -/
structure MpmcQueue (α : Type) where
  capacity : Nat
  mask : Nat
  q : Nat → Item α
  iwrite : Nat
  iread : Nat
  pc : Nat → QPc α
  ret : Nat → Option Bool
  result : Nat → Option α

/-- The actions, each named by its thread. -/
inductive QAction (α : Type)
  | tryPush (c : Nat) (data : α)
  | tryPop (c : Nat)
  | resume (c : Nat)

namespace MpmcQueue

variable {α : Type}

/-- The constructor: `capacity(align2n(cap))`, `mask(capacity - 1)`, slot `i` expecting the
write of index `i`, and `iread_exp` at `-1`. -/
def new (cap : Nat) : MpmcQueue α :=
  let capacity := align2n cap
  ⟨capacity, capacity - 1, fun i => ⟨none, i, 2 ^ 64 - 1⟩, 0, 0, fun _ => .idle,
    fun _ => none, fun _ => none⟩

/-- Thread `c` moves to `p`. -/
@[simps]
def setPc (s : MpmcQueue α) (c : Nat) (p : QPc α) : MpmcQueue α :=
  { s with pc := Function.update s.pc c p }

/-- Thread `c`'s call returns `r`. -/
@[simps]
def finish (s : MpmcQueue α) (c : Nat) (r : Bool) : MpmcQueue α :=
  { s.setPc c .idle with ret := Function.update s.ret c (some r) }

/-- The slot of index `i`: `q[i & mask]`. -/
def slot (s : MpmcQueue α) (i : Nat) : Item α := s.q (i &&& s.mask)

/-- The slot of index `i` becomes `it`. -/
@[simps]
def setSlot (s : MpmcQueue α) (i : Nat) (it : Item α) : MpmcQueue α :=
  { s with q := Function.update s.q (i &&& s.mask) it }

/-- Thread `c`'s next step in `try_push` or `try_pop`; `none` when it is in neither. -/
def resume (s : MpmcQueue α) (c : Nat) : Option (MpmcQueue α) :=
  match s.pc c with
  | .idle => none
  | .pushCheck data iwrite =>
      if (s.slot iwrite).iwriteExp ≠ iwrite then some (s.finish c false)
      else some (s.setPc c (.pushCas data iwrite))
  | .pushCas data iwrite =>
      -- a failed compare-exchange loads the current `iwrite_` into `iwrite` and loops
      if s.iwrite = iwrite then
        some { s.setPc c (.pushStore data iwrite) with iwrite := iwrite + 1 }
      else some (s.setPc c (.pushCheck data s.iwrite))
  | .pushStore data iwrite =>
      some ((s.setSlot iwrite { s.slot iwrite with data := some data, ireadExp := iwrite }).finish
        c true)
  | .popCheck iread =>
      if (s.slot iread).ireadExp ≠ iread then some (s.finish c false)
      else some (s.setPc c (.popCas iread))
  | .popCas iread =>
      if s.iread = iread then some { s.setPc c (.popLoad iread) with iread := iread + 1 }
      else some (s.setPc c (.popCheck s.iread))
  | .popLoad iread =>
      some { (s.setSlot iread { s.slot iread with iwriteExp := iread + s.capacity }).finish c true
        with result := Function.update s.result c (s.slot iread).data }

/-- One step: a thread in no call loads `iwrite_` or `iread_` to start one. -/
def step (s : MpmcQueue α) : QAction α → Option (MpmcQueue α)
  | .tryPush c data =>
      if (s.pc c).isIdle then some (s.setPc c (.pushCheck data s.iwrite)) else none
  | .tryPop c => if (s.pc c).isIdle then some (s.setPc c (.popCheck s.iread)) else none
  | .resume c => s.resume c

/-! ### The indices only grow -/

section Mono

variable {s t : MpmcQueue α}

/-- Every step keeps the capacity and never moves `iwrite_` down. -/
theorem step_iwrite {a : QAction α} (h : s.step a = some t) :
    t.capacity = s.capacity ∧ s.iwrite ≤ t.iwrite := by
  cases a with
  | tryPush c data =>
      simp only [step] at h
      split at h <;> cases h
      exact ⟨rfl, le_refl _⟩
  | tryPop c =>
      simp only [step] at h
      split at h <;> cases h
      exact ⟨rfl, le_refl _⟩
  | resume c =>
      simp only [step, resume] at h
      -- one case for each place in the code; only the claim of an index moves `iwrite_`
      split at h
      · cases h
      all_goals
        (try split at h) <;> cases h <;> simp [setPc, finish, setSlot] <;> omega

/-- **`iwrite_` never goes down.**  Along any run the capacity stays and `iwrite_` grows. -/
theorem iwrite_mono (h : Machine.Reach step s t) :
    t.capacity = s.capacity ∧ s.iwrite ≤ t.iwrite := by
  -- induction on the run, from the state it starts at
  induction h with
  | init => exact ⟨rfl, le_refl _⟩
  | next _ _ hstep ih =>
      obtain ⟨hcap, hle⟩ := step_iwrite hstep
      exact ⟨hcap.trans ih.1, Nat.le_trans ih.2 hle⟩

end Mono

/-! ### A `try_push` that fails on a queue with room -/

/-- **`try_push` fails on a queue that is not full.**  On a queue of capacity `2`, thread `0`
loads `iwrite_ = 0`; thread `1` pushes at index `0` and thread `2` pops it, which sets the
slot's `iwrite_exp` to `2`.  Thread `0` then finds `iwrite_exp ≠ 0` and returns `false`.  No
state on the way held more than one value, as `iwrite_` ends at `1`. -/
theorem tryPush_fails_not_full :
    ∃ s : MpmcQueue Nat, Machine.Reach step (new 2) s ∧ s.ret 0 = some false ∧
      s.pc 0 = .idle ∧ s.iwrite = 1 ∧ s.iread = 1 ∧
      ∀ t, Machine.Reach step (new 2) t → Machine.Reach step t s →
        t.iwrite - t.iread < t.capacity := by
  have hrun : Machine.holdsAfter step (new 2)
      [.tryPush 0 7, .tryPush 1 5, .resume 1, .resume 1, .resume 1, .tryPop 2, .resume 2,
        .resume 2, .resume 2, .resume 0]
      (fun (s : MpmcQueue Nat) => s.ret 0 = some false ∧ s.pc 0 = QPc.idle ∧ s.iwrite = 1 ∧
        s.iread = 1 ∧ s.capacity = 2) = true := by
    decide +kernel
  obtain ⟨s, hreach, hret, hpc, hw, hr, hcap⟩ := Machine.exists_of_holdsAfter _ hrun
  refine ⟨s, hreach, hret, hpc, hw, hr, fun t _ hts => ?_⟩
  -- `t` comes before `s`: its capacity is `2` and its `iwrite_` at most `1`
  obtain ⟨hcap', hle⟩ := iwrite_mono hts
  omega

end MpmcQueue

end Ffrt.Pattern

import Mathlib

/-!
# Sched — Load predictor

`SimpleLoadPredictor` (`src/sched/load_predictor.h`): the last five loads an interval reported,
newest first, in `loadHist`, and the prediction `maxLoad`.  `UpdateLoadImpl` shifts the history
with reverse iterators running from `rbegin()` to `rend() - 1`, adding each shifted value to
`sum` in the same loop, and writes the new load at the front; the prediction is the largest of
the window's mean and its two newest loads.

* `shift`: the loop, one index a turn from the last down to `1`; `shift_getElem?` and
  `shift_snd` say what it leaves in the history and in `sum`.
* `updateLoad_loadHist`: the history after `UpdateLoad(load)` is `load` followed by the four
  newest of the old one.
* `slidingWindow`: after any loads from a fresh or cleared predictor, the history is the five
  newest loads, newest first, and the prediction is read off them, as long as their sum fits
  in the `uint64_t` that `sum` is.
-/

namespace Ffrt.Sched

/-- `HIST_SIZE`. -/
def histSize : Nat := 5

/-- A `SimpleLoadPredictor`: `loadHist`, a `std::array` of `HIST_SIZE` loads, and `maxLoad`. -/
structure SimpleLoadPredictor where
  loadHist : List Nat
  maxLoad : Nat
  length_loadHist : loadHist.length = histSize

namespace SimpleLoadPredictor

/-- The constructor: `loadHist` filled with `0`. -/
def init : SimpleLoadPredictor := ⟨List.replicate histSize 0, 0, List.length_replicate⟩

/-- `ClearImpl`. -/
def clear (_ : SimpleLoadPredictor) : SimpleLoadPredictor :=
  ⟨List.replicate histSize 0, 0, List.length_replicate⟩

/-- The loop of `UpdateLoadImpl`, at index `j` of the history and below: `*begin = *(begin + 1)`
moves the entry at `j - 1` to `j`, and `sum += *begin` adds it to the `uint64_t` sum. -/
def shift (hist : List Nat) (sum : Nat) : Nat → List Nat × Nat
  | 0 => (hist, sum)
  | j + 1 =>
      let hist' := hist.set (j + 1) (hist.getD j 0)
      shift hist' ((sum + hist'.getD (j + 1) 0) % 2 ^ 64) j

theorem length_shift (hist : List Nat) (sum j : Nat) :
    (shift hist sum j).1.length = hist.length := by
  induction j generalizing hist sum with
  | zero => rfl
  | succ j ih => simp [shift, ih]

/-- `UpdateLoadImpl(load)`: the loop from the last index down to `1`, `*end = load` at the
front, and `maxLoad = max({sum / HIST_SIZE, loadHist[0], loadHist[1]})`. -/
def updateLoad (p : SimpleLoadPredictor) (load : Nat) : SimpleLoadPredictor :=
  let r := shift p.loadHist load (histSize - 1)
  let hist := r.1.set 0 load
  ⟨hist, max (max (r.2 / histSize) (hist.getD 0 0)) (hist.getD 1 0),
    by simp [hist, r, length_shift, p.length_loadHist]⟩

/-- `GetPredictLoadImpl`. -/
def getPredictLoad (p : SimpleLoadPredictor) : Nat := p.maxLoad

/-- What the predictor should hold after the loads `ls`, oldest first: the five newest, newest
first, with `0` where there were fewer. -/
def lastLoads (ls : List Nat) : List Nat := (ls.reverse ++ List.replicate histSize 0).take histSize

/-! ### The loop -/

/-- **The loop moves the entries at `0, …, j - 1` one place up** and leaves the rest. -/
theorem shift_getElem? {hist : List Nat} {j : Nat} (hj : j < hist.length) (sum i : Nat) :
    (shift hist sum j).1[i]? = if 1 ≤ i ∧ i ≤ j then hist[i - 1]? else hist[i]? := by
  -- induction on the loop, from the highest index down; each turn writes index `j + 1` only
  induction j generalizing hist sum with
  | zero =>
      simp only [shift]
      rw [if_neg (by omega)]
  | succ j ih =>
      have hj' : j < (hist.set (j + 1) (hist.getD j 0)).length := by simp; omega
      simp only [shift]
      rw [ih hj']
      have hget : hist[j]? = some (hist.getD j 0) := by
        rw [List.getD_eq_getElem?_getD, List.getElem?_eq_getElem (by omega)]
        rfl
      by_cases hi : 1 ≤ i ∧ i ≤ j
      · rw [if_pos hi, if_pos ⟨hi.1, by omega⟩, List.getElem?_set, if_neg (by omega)]
      · rw [if_neg hi, List.getElem?_set]
        by_cases hij : i = j + 1
        · subst hij
          simp only [if_true, show j + 1 < hist.length from hj]
          simp only [List.getD_eq_getElem?_getD, Nat.add_sub_cancel]
          rw [hget]
          simp
        · rw [if_neg (Ne.symm hij), if_neg (by omega)]

/-- The loop, started from a 64-bit `sum`, adds the entries it moves, `0, …, j - 1`, to it,
modulo `2 ^ 64`. -/
theorem shift_snd {hist : List Nat} {j : Nat} (hj : j < hist.length) (sum : Nat) :
    (shift hist (sum % 2 ^ 64) j).2 = (sum + (hist.take j).sum) % 2 ^ 64 := by
  induction j generalizing hist sum with
  | zero => simp [shift]
  | succ j ih =>
      have hj' : j < (hist.set (j + 1) (hist.getD j 0)).length := by simp; omega
      simp only [shift]
      rw [ih hj']
      -- the entry moved to `j + 1` is the old one at `j`; below `j + 1` nothing has changed
      have htake : (hist.set (j + 1) (hist.getD j 0)).take j = hist.take j :=
        List.take_set_of_le (by omega)
      have hmoved : (hist.set (j + 1) (hist.getD j 0)).getD (j + 1) 0 = hist.getD j 0 := by
        simp [List.getD_eq_getElem?_getD, show j + 1 < hist.length from hj]
      have hsum : (hist.take (j + 1)).sum = (hist.take j).sum + hist.getD j 0 := by
        rw [List.take_add_one, List.sum_append, List.getD_eq_getElem?_getD,
          List.getElem?_eq_getElem (by omega)]
        simp
      rw [htake, hmoved, Nat.add_assoc, Nat.mod_add_mod, hsum]
      congr 1
      omega

/-- **`UpdateLoad(load)` puts `load` in front of the four newest loads.** -/
theorem updateLoad_loadHist (p : SimpleLoadPredictor) (load : Nat) :
    (p.updateLoad load).loadHist = load :: p.loadHist.take (histSize - 1) := by
  have hlen := p.length_loadHist
  apply List.ext_getElem?
  intro i
  simp only [updateLoad]
  rw [List.getElem?_set]
  cases i with
  | zero => simp [length_shift, hlen, histSize]
  | succ i =>
      rw [if_neg (by omega), shift_getElem? (by rw [hlen]; decide)]
      simp only [List.getElem?_cons_succ, List.getElem?_take]
      by_cases hi : i < histSize - 1
      · rw [if_pos ⟨by omega, by omega⟩, if_pos hi]
        rfl
      · rw [if_neg (by omega), if_neg hi, List.getElem?_eq_none (by rw [hlen]; omega)]

/-- The `sum` of `UpdateLoad(load)`, for a `uint64_t` load, is that of its new history, modulo
`2 ^ 64`. -/
theorem updateLoad_sum (p : SimpleLoadPredictor) {load : Nat} (hl : load < 2 ^ 64) :
    (shift p.loadHist load (histSize - 1)).2 = (p.updateLoad load).loadHist.sum % 2 ^ 64 := by
  have hj : histSize - 1 < p.loadHist.length := by rw [p.length_loadHist]; decide
  have h := shift_snd hj load
  rw [Nat.mod_eq_of_lt hl] at h
  rw [h, updateLoad_loadHist, List.sum_cons]

/-- `GetPredictLoad` after `UpdateLoad(load)`, when the new history's sum fits in 64 bits. -/
theorem getPredictLoad_updateLoad (p : SimpleLoadPredictor) {load : Nat} (hl : load < 2 ^ 64)
    (hsum : (p.updateLoad load).loadHist.sum < 2 ^ 64) :
    (p.updateLoad load).getPredictLoad =
      max (max ((p.updateLoad load).loadHist.sum / histSize)
        ((p.updateLoad load).loadHist.getD 0 0)) ((p.updateLoad load).loadHist.getD 1 0) := by
  have hmax : (p.updateLoad load).getPredictLoad =
      max (max ((shift p.loadHist load (histSize - 1)).2 / histSize)
        ((p.updateLoad load).loadHist.getD 0 0)) ((p.updateLoad load).loadHist.getD 1 0) := rfl
  rw [hmax, updateLoad_sum p hl, Nat.mod_eq_of_lt hsum]

theorem lastLoads_append (ls : List Nat) (l : Nat) :
    lastLoads (ls ++ [l]) = l :: (lastLoads ls).take (histSize - 1) := by
  simp [lastLoads, List.take_take, histSize]

/-- The history after more loads, from one that held the window of the loads before. -/
theorem loadHist_foldl (ls pre : List Nat) {p : SimpleLoadPredictor}
    (hp : p.loadHist = lastLoads pre) :
    (ls.foldl updateLoad p).loadHist = lastLoads (pre ++ ls) := by
  -- induction on the loads, the window of the loads so far carried along
  induction ls generalizing pre p with
  | nil => simpa using hp
  | cons l ls ih =>
      have hp' : (p.updateLoad l).loadHist = lastLoads (pre ++ [l]) := by
        rw [updateLoad_loadHist, hp, lastLoads_append]
      rw [List.foldl_cons, ih (pre ++ [l]) hp', List.append_assoc, List.singleton_append]

/-! ### The sliding window -/

/-- **`SimpleLoadPredictor` is a five-sample sliding window.**  After the loads `ls`, oldest
first, from a fresh or a cleared predictor, `loadHist` holds the five newest loads, newest
first, with `0` for those missing; once there has been a load, `GetPredictLoad` is the largest
of their mean (rounded down), the newest and the one before, provided their sum fits in 64
bits. -/
theorem slidingWindow (p₀ : SimpleLoadPredictor)
    (h₀ : p₀ = init ∨ ∃ p : SimpleLoadPredictor, p₀ = p.clear)
    (ls : List Nat) :
    (ls.foldl updateLoad p₀).loadHist = lastLoads ls ∧
      (ls ≠ [] → (lastLoads ls).sum < 2 ^ 64 →
        (ls.foldl updateLoad p₀).getPredictLoad =
          max (max ((lastLoads ls).sum / histSize) ((lastLoads ls).getD 0 0))
            ((lastLoads ls).getD 1 0)) := by
  have hinit : p₀.loadHist = lastLoads [] := by
    rcases h₀ with rfl | ⟨p, rfl⟩ <;> rfl
  have hhist : ∀ ls : List Nat, (ls.foldl updateLoad p₀).loadHist = lastLoads ls :=
    fun ls => loadHist_foldl ls [] hinit
  refine ⟨hhist ls, fun hne hlt => ?_⟩
  -- the prediction is computed by the last update
  obtain ⟨ls', l, rfl⟩ : ∃ ls' l, ls = ls' ++ [l] := by
    rcases List.eq_nil_or_concat ls with h | ⟨ls', l, h⟩
    · exact absurd h hne
    · exact ⟨ls', l, by rw [h, List.concat_eq_append]⟩
  have hfold : (ls' ++ [l]).foldl updateLoad p₀ = (ls'.foldl updateLoad p₀).updateLoad l := by
    rw [List.foldl_append, List.foldl_cons, List.foldl_nil]
  have hh := hhist (ls' ++ [l])
  rw [hfold] at hh
  -- the newest load is one of the five, so it is a `uint64_t` as their sum is
  have hl : l < 2 ^ 64 := by
    have : l ≤ (lastLoads (ls' ++ [l])).sum := by
      rw [lastLoads_append, List.sum_cons]
      omega
    omega
  rw [hfold, getPredictLoad_updateLoad _ hl (by rw [hh]; exact hlt), hh]

theorem slidingWindow_six :
    (init = init ∨ ∃ p : SimpleLoadPredictor, init = p.clear) ∧
      ([1, 2, 3, 4, 5, 6].foldl updateLoad init).loadHist = lastLoads [1, 2, 3, 4, 5, 6] :=
  ⟨.inl rfl, (slidingWindow init (.inl rfl) [1, 2, 3, 4, 5, 6]).1⟩

example : lastLoads [1, 2, 3, 4, 5, 6] = [6, 5, 4, 3, 2] := by decide

end SimpleLoadPredictor

end Ffrt.Sched

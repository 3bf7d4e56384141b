import Ffrt.Support.Machine
import Mathlib.Data.List.Perm.Basic

/-!
# Util — Slab allocator

`SimpleAllocator<T, MmapSz>` (`include/util/slab.h`): a batch block of `MmapSz` bytes, taken
with `calloc` at the first `Alloc` and cut into slots of `TSize` bytes, whose free slots are
`primaryCache`; when the cache is empty, `Alloc` takes each object from the heap, and `free`
tells the two apart by the address.  Addresses are naturals; the allocator's `lock` makes each
call one step, and `calloc` returns a region that overlaps no live one.

* `initLoop_eq`: `init`'s loop pushes the slots `basePtr + k * TSize`, `k < MmapSz / TSize`.
* `AllocInv`, `allocInv_step`: every step keeps the invariant of the allocator: the pointers
  handed out are distinct; the cache and the live pointers inside the block are, together and
  without repeats, exactly the slots; `count` is the size of the cache; a live pointer outside
  the block has its region outside it.
* `simpleAllocator_of_reach`: so it holds after every sequence of `AllocMem` and `FreeMem`;
  `alloc_some`: and `Alloc` then never takes `back()` of an empty cache.
-/

namespace Ffrt.Util

/-- A `SimpleAllocator`: the free slots `primaryCache`, the block `basePtr`, and `count`. -/
structure SimpleAllocator where
  primaryCache : List Nat
  basePtr : Option Nat
  count : Nat

/-- The allocator with the pointers its callers hold: handed out by `AllocMem` and not yet
given to `FreeMem`. -/
structure AllocSys where
  a : SimpleAllocator
  live : List Nat

/-- The calls: `AllocMem`, with the address `calloc` returns if it calls it, and `FreeMem`. -/
inductive AllocOp
  | allocMem (p : Nat)
  | freeMem (t : Nat)
  deriving DecidableEq, Repr

section Model

variable (TSize MmapSz : Nat)

/-- The loop of `init`: `for (i = 0; i + TSize <= MmapSz; i += TSize)`, pushing `p + i`, with
fuel. -/
def initLoop (p : Nat) : Nat → Nat → List Nat → List Nat
  | 0, _, acc => acc
  | fuel + 1, i, acc =>
      if i + TSize ≤ MmapSz then initLoop p fuel (i + TSize) (acc ++ [p + i]) else acc

namespace SimpleAllocator

/-- The allocator before its first `Alloc`: no block, an empty cache. -/
def empty : SimpleAllocator := ⟨[], none, 0⟩

/-- `basePtr <= t && t < basePtr + MmapSz`, false with no block. -/
def inBlock (a : SimpleAllocator) (t : Nat) : Bool :=
  match a.basePtr with
  | none => false
  | some b => decide (b ≤ t ∧ t < b + MmapSz)

/-- `init()`, `calloc` returning `p`: the block's slots in the cache, and `count` of them. -/
def init (a : SimpleAllocator) (p : Nat) : SimpleAllocator :=
  { a with
    count := MmapSz / TSize
    primaryCache := initLoop TSize MmapSz p (MmapSz + 1) 0 a.primaryCache
    basePtr := some p }

/-- `t = primaryCache.back(); primaryCache.pop_back(); count--;`, undefined on an empty
cache. -/
def pop (a : SimpleAllocator) : Option (SimpleAllocator × Nat) :=
  match a.primaryCache.getLast? with
  | none => none
  | some t => some ({ a with primaryCache := a.primaryCache.dropLast, count := a.count - 1 }, t)

/-- `Alloc()`, `calloc` returning `p` if it is called: with `count == 0`, an object from the
heap once there is a block, else `init()` first. -/
def alloc (a : SimpleAllocator) (p : Nat) : Option (SimpleAllocator × Nat) :=
  if a.count = 0 then
    if a.basePtr.isSome then some (a, p) else (a.init TSize MmapSz p).pop
  else a.pop

/-- `free(t)`: a pointer inside the block back to the cache, any other to the heap. -/
def free (a : SimpleAllocator) (t : Nat) : SimpleAllocator :=
  if a.inBlock MmapSz t then
    { a with primaryCache := a.primaryCache ++ [t], count := a.count + 1 }
  else a

/-- The region of `size` bytes at `p` lies outside the block, if there is one. -/
def outsideBlock (a : SimpleAllocator) (size p : Nat) : Bool :=
  match a.basePtr with
  | none => true
  | some b => decide (p + size ≤ b ∨ b + MmapSz ≤ p)

end SimpleAllocator

namespace AllocSys

/-- No call yet. -/
def init : AllocSys := ⟨.empty, []⟩

/-- `calloc(1, size)` may return `p`: its region overlaps neither the block nor any live
object from the heap. -/
def CallocFresh (s : AllocSys) (size p : Nat) : Prop :=
  s.a.outsideBlock MmapSz size p = true ∧
    ∀ h ∈ s.live, s.a.inBlock MmapSz h = false → p + size ≤ h ∨ h + TSize ≤ p

/-- A call may run: `AllocMem` with what `calloc` would return when the cache is empty,
`FreeMem` on a live pointer. -/
def Enabled (s : AllocSys) : AllocOp → Prop
  | .allocMem p =>
      s.a.count = 0 → CallocFresh TSize MmapSz s (if s.a.basePtr.isSome then TSize else MmapSz) p
  | .freeMem t => t ∈ s.live

instance (s : AllocSys) : (op : AllocOp) → Decidable (Enabled TSize MmapSz s op)
  | .allocMem _ => inferInstanceAs (Decidable (_ → _ ∧ ∀ h ∈ s.live, _))
  | .freeMem _ => inferInstanceAs (Decidable (_ ∈ s.live))

/-- What a call does: `AllocMem` hands out what `Alloc` returns, `FreeMem` gives it back. -/
def exec (s : AllocSys) : AllocOp → Option AllocSys
  | .allocMem p =>
      match s.a.alloc TSize MmapSz p with
      | some (a, t) => some ⟨a, t :: s.live⟩
      | none => none
  | .freeMem t => some ⟨s.a.free MmapSz t, s.live.erase t⟩

/-- One call, under the allocator's lock. -/
def step (s : AllocSys) (op : AllocOp) : Option AllocSys :=
  if Enabled TSize MmapSz s op then s.exec TSize MmapSz op else none

end AllocSys

/-- The slots of the block at `b`: `b + k * TSize` for `k < MmapSz / TSize`. -/
def slots (b : Nat) : List Nat := (List.range (MmapSz / TSize)).map fun k => b + k * TSize

end Model

/-! ### The slots of the block -/

section Slots

variable {TSize MmapSz : Nat}

theorem mem_slots {b t : Nat} :
    t ∈ slots TSize MmapSz b ↔ ∃ k < MmapSz / TSize, t = b + k * TSize := by
  simp [slots, eq_comm]

theorem nodup_slots (hT : 0 < TSize) (b : Nat) : (slots TSize MmapSz b).Nodup := by
  apply List.Nodup.map _ List.nodup_range
  intro k k' h
  exact Nat.eq_of_mul_eq_mul_right hT (Nat.add_left_cancel h)

/-- A slot lies inside the block. -/
theorem slot_inside (hT : 0 < TSize) {b t : Nat} (ht : t ∈ slots TSize MmapSz b) :
    b ≤ t ∧ t < b + MmapSz := by
  obtain ⟨k, hk, rfl⟩ := mem_slots.mp ht
  have hfit : (k + 1) * TSize ≤ MmapSz := (Nat.le_div_iff_mul_le hT).mp hk
  rw [Nat.succ_mul] at hfit
  omega

/-- **`init`'s loop pushes the slots.**  From the `k`-th slot on, with fuel for the turns
left, the loop appends the slots `k`, `k + 1`, ... to what it was given. -/
theorem initLoop_eq (hT : 0 < TSize) (p : Nat) :
    ∀ fuel k acc, k ≤ MmapSz / TSize → MmapSz / TSize - k < fuel →
      initLoop TSize MmapSz p fuel (k * TSize) acc =
        acc ++ (List.range' k (MmapSz / TSize - k)).map fun j => p + j * TSize := by
  -- induction on the fuel, one slot a turn
  intro fuel
  induction fuel with
  | zero =>
      intro k acc _ hfuel
      omega
  | succ fuel ih =>
      intro k acc hk hfuel
      simp only [initLoop]
      by_cases hlt : k < MmapSz / TSize
      · have hfit : k * TSize + TSize ≤ MmapSz := by
          have := (Nat.le_div_iff_mul_le hT).mp hlt
          rwa [Nat.succ_mul] at this
        obtain ⟨m, hm⟩ : ∃ m, MmapSz / TSize - k = m + 1 :=
          ⟨MmapSz / TSize - k - 1, by omega⟩
        rw [if_pos hfit, ← Nat.succ_mul, ih (k + 1) _ hlt (by omega), hm, List.range'_succ,
          show MmapSz / TSize - (k + 1) = m by omega]
        simp
      · have hfit : ¬ k * TSize + TSize ≤ MmapSz := by
          intro hfit
          rw [← Nat.succ_mul] at hfit
          exact hlt ((Nat.le_div_iff_mul_le hT).mpr hfit)
        rw [if_neg hfit, show MmapSz / TSize - k = 0 by omega]
        simp

namespace SimpleAllocator

/-- `init()` appends the slots of the new block to the cache. -/
theorem init_primaryCache (hT : 0 < TSize) (a : SimpleAllocator) (p : Nat) :
    (a.init TSize MmapSz p).primaryCache = a.primaryCache ++ slots TSize MmapSz p := by
  have h : initLoop TSize MmapSz p (MmapSz + 1) (0 * TSize) a.primaryCache =
      a.primaryCache ++ (List.range' 0 (MmapSz / TSize - 0)).map fun j => p + j * TSize :=
    initLoop_eq hT p (MmapSz + 1) 0 a.primaryCache (Nat.zero_le _)
      (by have := Nat.div_le_self MmapSz TSize; omega)
  rw [Nat.zero_mul, Nat.sub_zero] at h
  rw [init, h, slots, List.range_eq_range']

/-- What `pop` takes is the last entry of the cache. -/
theorem pop_eq_some {a a' : SimpleAllocator} {t : Nat} (h : a.pop = some (a', t)) :
    a.primaryCache = a'.primaryCache ++ [t] ∧ a'.basePtr = a.basePtr ∧
      a'.count = a.count - 1 := by
  unfold pop at h
  split at h
  · cases h
  · rename_i t' ht
    cases h
    obtain ⟨ys, hys⟩ := List.getLast?_eq_some_iff.mp ht
    exact ⟨by simp [hys], rfl, rfl⟩

theorem pop_some {a : SimpleAllocator} (h : a.primaryCache ≠ []) : ∃ r, a.pop = some r := by
  unfold pop
  cases ht : a.primaryCache.getLast? with
  | none => exact absurd (List.getLast?_eq_none_iff.mp ht) h
  | some t => exact ⟨_, rfl⟩

/-- Every `Alloc`: after `init()`, from the heap, or from the cache. -/
theorem alloc_cases {a a' : SimpleAllocator} {p t : Nat}
    (h : a.alloc TSize MmapSz p = some (a', t)) :
    (a.count = 0 ∧ a.basePtr = none ∧ (a.init TSize MmapSz p).pop = some (a', t)) ∨
      (a.count = 0 ∧ a.basePtr.isSome ∧ a' = a ∧ t = p) ∨
      (a.count ≠ 0 ∧ a.pop = some (a', t)) := by
  unfold alloc at h
  by_cases hc : a.count = 0
  · rw [if_pos hc] at h
    by_cases hb : a.basePtr.isSome
    · rw [if_pos hb] at h
      cases h
      exact .inr (.inl ⟨hc, hb, rfl, rfl⟩)
    · rw [if_neg hb] at h
      exact .inl ⟨hc, Option.not_isSome_iff_eq_none.mp hb, h⟩
  · rw [if_neg hc] at h
    exact .inr (.inr ⟨hc, h⟩)

theorem inBlock_congr {a a' : SimpleAllocator} (h : a'.basePtr = a.basePtr) :
    a'.inBlock MmapSz = a.inBlock MmapSz := by
  funext t
  simp only [inBlock, h]

theorem inBlock_of_slot (hT : 0 < TSize) {a : SimpleAllocator} {b t : Nat}
    (hb : a.basePtr = some b) (ht : t ∈ slots TSize MmapSz b) : a.inBlock MmapSz t = true := by
  simp [inBlock, hb, slot_inside hT ht]

end SimpleAllocator

end Slots

/-! ### The invariant of the allocator -/

section Invariant

variable {TSize MmapSz : Nat}

open SimpleAllocator

/-- What every call keeps: the pointers handed out are distinct; before the first `Alloc` there
is no block, cache or pointer; after it, the cache and the live pointers inside the block are,
together and without repeats, the slots of the block, and every live pointer outside it has its
region outside it; `count` is the size of the cache. -/
structure AllocInv (TSize MmapSz : Nat) (s : AllocSys) : Prop where
  nodup : s.live.Nodup
  count : s.a.count = s.a.primaryCache.length
  noBlock : s.a.basePtr = none → s.a.primaryCache = [] ∧ s.live = []
  perm : ∀ b, s.a.basePtr = some b →
    (s.a.primaryCache ++ s.live.filter (s.a.inBlock MmapSz)).Perm (slots TSize MmapSz b)
  outside : ∀ b, s.a.basePtr = some b → ∀ t ∈ s.live, s.a.inBlock MmapSz t = false →
    t + TSize ≤ b ∨ b + MmapSz ≤ t

theorem allocInv_init : AllocInv TSize MmapSz AllocSys.init :=
  ⟨List.nodup_nil, rfl, fun _ => ⟨rfl, rfl⟩, fun _ h => (by cases h),
    fun _ h => (by cases h)⟩

variable {s : AllocSys}

/-- A cached pointer is a slot, inside the block. -/
theorem AllocInv.slot_of_cache (hI : AllocInv TSize MmapSz s) {b t : Nat}
    (hb : s.a.basePtr = some b) (ht : t ∈ s.a.primaryCache) : t ∈ slots TSize MmapSz b :=
  (hI.perm b hb).subset (List.mem_append_left _ ht)

/-- `Alloc` from the first block: every slot but the last is cached, the last handed out. -/
theorem AllocInv.alloc_init (hT : 0 < TSize) (hI : AllocInv TSize MmapSz s) {a' : SimpleAllocator}
    {p t : Nat} (hb : s.a.basePtr = none) (hpop : (s.a.init TSize MmapSz p).pop = some (a', t)) :
    AllocInv TSize MmapSz ⟨a', t :: s.live⟩ := by
  obtain ⟨hcache, hlive⟩ := hI.noBlock hb
  obtain ⟨hsplit, hb', hc'⟩ := pop_eq_some hpop
  rw [init_primaryCache hT, hcache, List.nil_append] at hsplit
  have hbp : a'.basePtr = some p := hb'
  have ht : a'.inBlock MmapSz t = true :=
    inBlock_of_slot hT hbp (by rw [hsplit]; exact List.mem_append_right _ List.mem_cons_self)
  refine ⟨by simp [hlive], ?_, (fun h => by rw [hbp] at h; cases h), ?_, ?_⟩
  · -- the block's `MmapSz / TSize` slots, one handed out
    have hlen := congrArg List.length hsplit
    simp only [slots, List.length_map, List.length_range, List.length_append,
      List.length_singleton] at hlen
    have hcnt : (s.a.init TSize MmapSz p).count = MmapSz / TSize := rfl
    rw [hc', hcnt]
    show MmapSz / TSize - 1 = a'.primaryCache.length
    omega
  · intro b hb''
    rw [hbp, Option.some.injEq] at hb''
    subst hb''
    rw [hlive, List.filter_cons_of_pos ht, List.filter_nil, ← hsplit]
  · intro b _ u hu hout
    rw [hlive, List.mem_singleton] at hu
    subst hu
    rw [ht] at hout
    cases hout

/-- `Alloc` from the heap: the region `calloc` returns is outside the block and every live
object. -/
theorem AllocInv.alloc_heap (hT : 0 < TSize) (hI : AllocInv TSize MmapSz s) {p : Nat}
    (hb : s.a.basePtr.isSome)
    (hfresh : AllocSys.CallocFresh TSize MmapSz s TSize p) :
    AllocInv TSize MmapSz ⟨s.a, p :: s.live⟩ := by
  obtain ⟨b, hbb⟩ := Option.isSome_iff_exists.mp hb
  have hout : p + TSize ≤ b ∨ b + MmapSz ≤ p := by
    simpa [outsideBlock, hbb] using hfresh.1
  have hp : s.a.inBlock MmapSz p = false := by
    simp only [inBlock, hbb, decide_eq_false_iff_not, not_and, Nat.not_lt]
    omega
  -- the new object is none of the live pointers: not one inside the block, nor from the heap
  have hnew : p ∉ s.live := by
    intro hmem
    rcases hfresh.2 p hmem hp with h | h <;> omega
  refine ⟨List.nodup_cons.mpr ⟨hnew, hI.nodup⟩, hI.count,
    (fun h => by rw [hbb] at h; cases h), ?_, ?_⟩
  · intro b' hb'
    rw [List.filter_cons, hp, if_neg (by simp)]
    exact hI.perm b' hb'
  · intro b' hb' t ht hoff
    rw [hbb, Option.some.injEq] at hb'
    subst hb'
    rcases List.mem_cons.mp ht with rfl | ht
    · exact hout
    · exact hI.outside _ hbb t ht hoff

/-- `Alloc` from the cache: its last slot is handed out. -/
theorem AllocInv.alloc_pop (hT : 0 < TSize) (hI : AllocInv TSize MmapSz s) {a' : SimpleAllocator}
    {t : Nat} (hc : s.a.count ≠ 0) (hpop : s.a.pop = some (a', t)) :
    AllocInv TSize MmapSz ⟨a', t :: s.live⟩ := by
  obtain ⟨hsplit, hb', hc'⟩ := pop_eq_some hpop
  have hin : a'.inBlock MmapSz = s.a.inBlock MmapSz := inBlock_congr hb'
  -- there is a block, since the cache is not empty
  obtain ⟨b, hb⟩ : ∃ b, s.a.basePtr = some b := by
    cases h : s.a.basePtr with
    | none => exact absurd (hI.count.trans (by rw [(hI.noBlock h).1]; rfl)) hc
    | some b => exact ⟨b, rfl⟩
  have htc : t ∈ s.a.primaryCache := by
    rw [hsplit]
    exact List.mem_append_right _ List.mem_cons_self
  have ht : s.a.inBlock MmapSz t = true := inBlock_of_slot hT hb (hI.slot_of_cache hb htc)
  have hsame : a'.primaryCache ++ (t :: s.live).filter (a'.inBlock MmapSz) =
      s.a.primaryCache ++ s.live.filter (s.a.inBlock MmapSz) := by
    rw [hin, List.filter_cons, ht, if_pos rfl, hsplit, List.append_assoc, List.singleton_append]
  -- the slot was cached, so it was not handed out
  have hnew : t ∉ s.live := by
    intro hmem
    have hnd := (hI.perm b hb).nodup_iff.mpr (nodup_slots hT b)
    exact (List.nodup_append.mp hnd).2.2 t htc t (List.mem_filter.mpr ⟨hmem, ht⟩) rfl
  refine ⟨List.nodup_cons.mpr ⟨hnew, hI.nodup⟩, ?_, (fun h => by rw [hb', hb] at h; cases h),
    fun b' hb'' => ?_, ?_⟩
  · rw [hc', hI.count, hsplit]
    simp
  · rw [hsame]
    exact hI.perm b' (hb'.symm.trans hb'')
  · intro b' hb'' u hu hoff
    rw [hin] at hoff
    rcases List.mem_cons.mp hu with rfl | hu
    · rw [ht] at hoff
      cases hoff
    · exact hI.outside b' (hb'.symm.trans hb'') u hu hoff

/-- `free` of a live pointer: a slot back to the cache, any other to the heap. -/
theorem AllocInv.free (hI : AllocInv TSize MmapSz s) {t : Nat} (ht : t ∈ s.live) :
    AllocInv TSize MmapSz ⟨s.a.free MmapSz t, s.live.erase t⟩ := by
  -- a live pointer means there is a block
  obtain ⟨b, hb⟩ : ∃ b, s.a.basePtr = some b := by
    cases h : s.a.basePtr with
    | none => rw [(hI.noBlock h).2] at ht; cases ht
    | some b => exact ⟨b, rfl⟩
  have hout : ∀ b', s.a.basePtr = some b' → ∀ u ∈ s.live.erase t,
      s.a.inBlock MmapSz u = false → u + TSize ≤ b' ∨ b' + MmapSz ≤ u :=
    fun b' hb' u hu => hI.outside b' hb' u (List.mem_of_mem_erase hu)
  have hnodup := hI.nodup.erase t
  by_cases hin : s.a.inBlock MmapSz t = true
  · have hfree : s.a.free MmapSz t =
        { s.a with primaryCache := s.a.primaryCache ++ [t], count := s.a.count + 1 } := by
      simp [SimpleAllocator.free, hin]
    rw [hfree]
    refine ⟨hnodup, by simp [hI.count], (fun h => by rw [hb] at h; cases h), ?_, hout⟩
    intro b' hb'
    -- `t` leaves the live pointers inside the block and joins the cache
    have hmem : t ∈ s.live.filter (s.a.inBlock MmapSz) := List.mem_filter.mpr ⟨ht, hin⟩
    show (s.a.primaryCache ++ [t] ++ (s.live.erase t).filter (s.a.inBlock MmapSz)).Perm _
    rw [← List.erase_filter, List.append_assoc, List.singleton_append]
    exact ((List.perm_cons_erase hmem).symm.append_left _).trans (hI.perm b' hb')
  · have hfree : s.a.free MmapSz t = s.a := by simp [SimpleAllocator.free, hin]
    rw [hfree]
    refine ⟨hnodup, hI.count, (fun h => by rw [hb] at h; cases h), ?_, hout⟩
    intro b' hb'
    have hmem : t ∉ s.live.filter (s.a.inBlock MmapSz) := fun h => hin (List.mem_filter.mp h).2
    show (s.a.primaryCache ++ (s.live.erase t).filter (s.a.inBlock MmapSz)).Perm _
    rw [← List.erase_filter, List.erase_of_not_mem hmem]
    exact hI.perm b' hb'

/-- **Every call keeps the invariant.** -/
theorem allocInv_step (hT : 0 < TSize) {s' : AllocSys} {op : AllocOp}
    (hI : AllocInv TSize MmapSz s) (h : AllocSys.step TSize MmapSz s op = some s') :
    AllocInv TSize MmapSz s' := by
  unfold AllocSys.step at h
  split at h
  · rename_i hen
    cases op with
    | allocMem p =>
        simp only [AllocSys.exec] at h
        split at h
        · rename_i a' t halloc
          cases h
          rcases alloc_cases halloc with ⟨-, hb, hpop⟩ | ⟨hc, hb, rfl, rfl⟩ | ⟨hc, hpop⟩
          · exact hI.alloc_init hT hb hpop
          · have hfresh := hen hc
            rw [if_pos hb] at hfresh
            exact hI.alloc_heap hT hb hfresh
          · exact hI.alloc_pop hT hc hpop
        · cases h
    | freeMem t =>
        cases h
        exact hI.free hen
  · cases h

/-- The invariant holds after every sequence of calls. -/
theorem allocInv_of_reach (hT : 0 < TSize) (h : Machine.Reach (AllocSys.step TSize MmapSz)
    AllocSys.init s) : AllocInv TSize MmapSz s :=
  Machine.Invariant.reach (fun _ _ _ hI hs => allocInv_step hT hI hs) allocInv_init h

/-- **`Alloc` never takes `back()` of an empty cache**: with slots no larger than the block,
`init()` caches at least one, and otherwise `count` is the size of the cache. -/
theorem alloc_some (hT : 0 < TSize) (hle : TSize ≤ MmapSz) (hI : AllocInv TSize MmapSz s)
    (p : Nat) : ∃ r, s.a.alloc TSize MmapSz p = some r := by
  unfold alloc
  by_cases hc : s.a.count = 0
  · rw [if_pos hc]
    by_cases hb : s.a.basePtr.isSome
    · exact ⟨_, by rw [if_pos hb]⟩
    · rw [if_neg hb]
      apply pop_some
      rw [init_primaryCache hT]
      have hn : 0 < MmapSz / TSize := Nat.div_pos hle hT
      intro hnil
      have := congrArg List.length hnil
      simp [slots] at this
      omega
  · rw [if_neg hc]
    apply pop_some
    intro hnil
    rw [hI.count, hnil] at hc
    exact hc rfl

/-- **`SimpleAllocator` never hands out a slot twice.**  With slots of `TSize` bytes, `sizeof`
of an object and so positive, no larger than the block, after any sequence of `AllocMem` and
`FreeMem` on live pointers: the pointers handed out are distinct and `count` is the size of the
cache; before the first `Alloc` there is no block, cache or pointer; after it, a live pointer is
inside the block exactly when it is one of its slots `basePtr + k * TSize`, `k < MmapSz / TSize`,
which `free` gives back to the cache, and any other has its region outside the block and goes
to the heap; the cache and the live slots are, together and without repeats, all the slots; and
`Alloc` is defined. -/
theorem simpleAllocator_of_reach (hT : 0 < TSize) (hle : TSize ≤ MmapSz)
    (h : Machine.Reach (AllocSys.step TSize MmapSz) AllocSys.init s) :
    s.live.Nodup ∧ s.a.count = s.a.primaryCache.length ∧
      (s.a.basePtr = none → s.a.primaryCache = [] ∧ s.live = []) ∧
      (∀ b, s.a.basePtr = some b →
        (∀ t ∈ s.live, s.a.inBlock MmapSz t = true ↔ t ∈ slots TSize MmapSz b) ∧
        (s.a.primaryCache ++ s.live.filter (s.a.inBlock MmapSz)).Perm (slots TSize MmapSz b) ∧
        ∀ t ∈ s.live, s.a.inBlock MmapSz t = false → t + TSize ≤ b ∨ b + MmapSz ≤ t) ∧
      ∀ p, ∃ r, s.a.alloc TSize MmapSz p = some r := by
  have hI := allocInv_of_reach hT h
  refine ⟨hI.nodup, hI.count, hI.noBlock, fun b hb => ⟨?_, hI.perm b hb, hI.outside b hb⟩,
    alloc_some hT hle hI⟩
  -- inside the block means a live slot, by the partition of the slots
  intro t ht
  constructor
  · intro hin
    exact (hI.perm b hb).subset (List.mem_append_right _ (List.mem_filter.mpr ⟨ht, hin⟩))
  · exact inBlock_of_slot hT hb

theorem simpleAllocator_of_reach_one :
    let s : AllocSys := ⟨⟨[0], some 0, 1⟩, [1]⟩
    0 < 1 ∧ 1 ≤ 2 ∧ Machine.Reach (AllocSys.step 1 2) AllocSys.init s ∧
      (s.live.Nodup ∧ s.a.count = s.a.primaryCache.length ∧
        (s.a.basePtr = none → s.a.primaryCache = [] ∧ s.live = []) ∧
        (∀ b, s.a.basePtr = some b →
          (∀ t ∈ s.live, s.a.inBlock 2 t = true ↔ t ∈ slots 1 2 b) ∧
          (s.a.primaryCache ++ s.live.filter (s.a.inBlock 2)).Perm (slots 1 2 b) ∧
          ∀ t ∈ s.live, s.a.inBlock 2 t = false → t + 1 ≤ b ∨ b + 2 ≤ t) ∧
        ∀ p, ∃ r, s.a.alloc 1 2 p = some r) := by
  intro s
  -- the first `AllocMem`: `init()` caches the slots `0` and `1`, and `1` is handed out
  have hreach : Machine.Reach (AllocSys.step 1 2) AllocSys.init s :=
    Machine.Reach.one (.allocMem 0) rfl
  exact ⟨by decide, by decide, hreach, simpleAllocator_of_reach (by decide) (by decide) hreach⟩

end Invariant

end Ffrt.Util

import Ffrt.Support.Digraph
import Ffrt.Support.Multimap

/-!
# Util — Graph check

`GraphCheckCyclic` (`src/util/graph_check.cpp`), the graph of the mutex deadlock check: the
`std::map` `vetexes` from each vertex's label to the labels its edges lead to, and the
depth-first search of `IsCyclic` with its `visited` and `recStack` marks.  `MutexGraph`
(`src/sync/mutex_private.h`) adds an edge from a mutex's owner to each task that waits on it.

The search is a recursion on the vertices, with fuel: `isCyclicDfs` returns `none` when the fuel
runs out, or when it looks up a label that is not a vertex, where the source reads `it->second`
of `vetexes.end()`.  `IsCyclic` gives it one more than the number of vertices.

* `isCyclicDfs_false`: a search from an unvisited vertex that returns `false` leaves the
  recursion stack as it found it, and the vertex visited and off the stack, finished.
* `isCyclicDfs_finished`: the finished vertices stay closed under the edges and on no cycle.
* `isCyclicDfs_true`: a search that returns `true` has found an edge back into the recursion
  stack, all of whose vertices reach the one being searched: a cycle.
* `isCyclicDfs_some`: the search returns, with fuel above the number of unvisited vertices,
  when every edge leads to a vertex.
* `isCyclic_iff`: for a graph built by any operations whose edges all lead to vertices,
  `IsCyclic` returns, and returns `true` exactly when the graph has a cycle.
* `addNode_closed`: the graphs `MutexGraph` builds are such graphs, so its check after every
  `AddNode` returns and finds exactly the cycles (`mutexGraph_isCyclic`).
-/

namespace Ffrt.Util

open Relation Digraph

/-- A `GraphCheckCyclic`: `vetexes`, as its entries in key order. -/
structure GraphCheckCyclic where
  vetexes : List (Nat × List Nat)

/-- A `VertexStatus`. -/
structure VertexStatus where
  visited : Bool
  recStack : Bool

/-- The list of the first entry of key `k` becomes `f` of it. -/
def modifyEntry (k : Nat) (f : List Nat → List Nat) :
    List (Nat × List Nat) → List (Nat × List Nat)
  | [] => []
  | e :: m => if e.1 = k then (e.1, f e.2) :: m else e :: modifyEntry k f m

namespace GraphCheckCyclic

/-- The graph with no vertex. -/
def empty : GraphCheckCyclic := ⟨[]⟩

/-- The labels of the vertices, in key order. -/
def keys (g : GraphCheckCyclic) : List Nat := g.vetexes.map Prod.fst

/-- `vetexes.find(label)`: the edges of `label`, when it is a vertex. -/
def find (g : GraphCheckCyclic) (label : Nat) : Option (List Nat) := g.vetexes.lookup label

/-- `AddVetexByLabel(label)`: a vertex with no edges, unless `label` is one. -/
def addVetexByLabel (g : GraphCheckCyclic) (label : Nat) : GraphCheckCyclic :=
  if label ∈ g.keys then g else ⟨Multimap.insert label [] g.vetexes⟩

/-- `AddEdgeByLabel(startLabel, endLabel)`: `push_back` on the edges of `startLabel`, when it is
a vertex. -/
def addEdgeByLabel (g : GraphCheckCyclic) (startLabel endLabel : Nat) : GraphCheckCyclic :=
  ⟨modifyEntry startLabel (· ++ [endLabel]) g.vetexes⟩

/-- `RemoveEdgeByLabel(endLabel)`: the edges of `endLabel` are cleared. -/
def removeEdgeByLabel (g : GraphCheckCyclic) (endLabel : Nat) : GraphCheckCyclic :=
  ⟨modifyEntry endLabel (fun _ => []) g.vetexes⟩

/-- `vertexStatus[v].recStack = b`. -/
def setRec (st : Nat → VertexStatus) (v : Nat) (b : Bool) : Nat → VertexStatus :=
  Function.update st v { st v with recStack := b }

/-- `vertexStatus[v].visited = true; vertexStatus[v].recStack = true;` -/
def mark (st : Nat → VertexStatus) (v : Nat) : Nat → VertexStatus :=
  Function.update st v ⟨true, true⟩

/-- `!vertexStatus[i].visited && IsCyclicDfs(i)`: the search from `i` runs only when `i` is
unvisited. -/
def child (dfs : Nat → (Nat → VertexStatus) → Option (Bool × (Nat → VertexStatus))) (i : Nat)
    (st : Nat → VertexStatus) : Option (Bool × (Nat → VertexStatus)) :=
  if (st i).visited then some (false, st) else dfs i st

/-- The loop of `IsCyclicDfs` over the edges of a vertex, `dfs` the recursive call: `true` when
a search from an edge's end does, or when the end is on the recursion stack after it. -/
def scan (dfs : Nat → (Nat → VertexStatus) → Option (Bool × (Nat → VertexStatus))) :
    List Nat → (Nat → VertexStatus) → Option (Bool × (Nat → VertexStatus))
  | [], st => some (false, st)
  | i :: is, st =>
      match child dfs i st with
      | none => none
      | some (true, st') => some (true, st')
      | some (false, st') => if (st' i).recStack then some (true, st') else scan dfs is st'

/-- `IsCyclicDfs(v, vertexStatus)`, with `fuel` bounding the depth of the recursion. -/
def isCyclicDfs (g : GraphCheckCyclic) :
    Nat → Nat → (Nat → VertexStatus) → Option (Bool × (Nat → VertexStatus))
  | 0, _, _ => none
  | fuel + 1, v, st =>
      if (st v).visited then some (false, setRec st v false)
      else
        match g.find v with
        | none => none
        | some adj =>
            match scan (g.isCyclicDfs fuel) adj (mark st v) with
            | some (false, st') => some (false, setRec st' v false)
            | r => r

/-- The loop of `IsCyclic` over the vertices. -/
def isCyclicLoop (g : GraphCheckCyclic) (fuel : Nat) :
    List Nat → (Nat → VertexStatus) → Option Bool
  | [], _ => some false
  | v :: vs, st =>
      match child (g.isCyclicDfs fuel) v st with
      | none => none
      | some (true, _) => some true
      | some (false, st') => g.isCyclicLoop fuel vs st'

/-- `IsCyclic()`: every vertex unvisited and off the stack, then a search from each unvisited
vertex in key order. -/
def isCyclic (g : GraphCheckCyclic) : Option Bool :=
  g.isCyclicLoop (g.vetexes.length + 1) g.keys fun _ => ⟨false, false⟩

/-- The edges of the graph. -/
def Edge (g : GraphCheckCyclic) (u w : Nat) : Prop := ∃ l, g.find u = some l ∧ w ∈ l

/-- Every edge leads to a vertex. -/
def Closed (g : GraphCheckCyclic) : Prop := ∀ u w, g.Edge u w → w ∈ g.keys

/-! ### The marks of the search -/

section Marks

variable {st st' st'' : Nat → VertexStatus}

/-- `u` is finished: visited and off the recursion stack. -/
def Finished (st : Nat → VertexStatus) (u : Nat) : Prop :=
  (st u).visited = true ∧ (st u).recStack = false

/-- Only visited vertices are on the recursion stack. -/
def StackVisited (st : Nat → VertexStatus) : Prop :=
  ∀ u, (st u).recStack = true → (st u).visited = true

/-- `st'` has visited at least what `st` has, and has the same recursion stack. -/
def Done (st st' : Nat → VertexStatus) : Prop :=
  (∀ u, (st u).visited = true → (st' u).visited = true) ∧ ∀ u, (st' u).recStack = (st u).recStack

theorem Done.refl (st : Nat → VertexStatus) : Done st st := ⟨fun _ h => h, fun _ => rfl⟩

theorem Done.trans (h₁ : Done st st') (h₂ : Done st' st'') : Done st st'' :=
  ⟨fun u hu => h₂.1 u (h₁.1 u hu), fun u => (h₂.2 u).trans (h₁.2 u)⟩

theorem Done.finished (h : Done st st') {u : Nat} (hu : Finished st u) : Finished st' u :=
  ⟨h.1 u hu.1, (h.2 u).trans hu.2⟩

theorem StackVisited.recStack_eq_false (h : StackVisited st) {u : Nat}
    (hu : (st u).visited = false) : (st u).recStack = false := by
  cases hr : (st u).recStack
  · rfl
  · rw [h u hr] at hu
    cases hu

@[simp] theorem mark_self (v : Nat) : mark st v v = ⟨true, true⟩ := by
  simp [mark]

theorem mark_of_ne {u v : Nat} (huv : u ≠ v) : mark st v u = st u := by
  simp [mark, huv]

/-- Marking keeps what was visited. -/
theorem mark_visited {u : Nat} (v : Nat) (hu : (st u).visited = true) :
    (mark st v u).visited = true := by
  by_cases huv : u = v
  · subst huv
    simp
  · rw [mark_of_ne huv, hu]

@[simp] theorem setRec_visited (v u : Nat) (b : Bool) :
    (setRec st v b u).visited = (st u).visited := by
  by_cases huv : u = v
  · subst huv
    simp [setRec]
  · simp [setRec, huv]

@[simp] theorem setRec_recStack (v u : Nat) (b : Bool) :
    (setRec st v b u).recStack = if u = v then b else (st u).recStack := by
  by_cases huv : u = v
  · subst huv
    simp [setRec]
  · simp [setRec, huv]

end Marks

/-! ### The loop over the edges -/

section Scan

variable {dfs : Nat → (Nat → VertexStatus) → Option (Bool × (Nat → VertexStatus))}
  {st st' : Nat → VertexStatus}

/-- A relation kept by every search is kept by the loop of searches. -/
theorem scan_rel {R : (Nat → VertexStatus) → (Nat → VertexStatus) → Prop}
    (hrefl : ∀ st, R st st) (htrans : ∀ {a b c}, R a b → R b c → R a c)
    (hdfs : ∀ i st b st', dfs i st = some (b, st') → R st st') :
    ∀ (l : List Nat) (st : Nat → VertexStatus) {b st'}, scan dfs l st = some (b, st') →
      R st st' := by
  -- induction on the edges, each turn one call of `child`
  intro l
  induction l with
  | nil =>
      intro st b st' h
      cases h
      exact hrefl st
  | cons i is ih =>
      intro st b st' h
      have hchild : ∀ {c st₁}, child dfs i st = some (c, st₁) → R st st₁ := by
        intro c st₁ hc
        unfold child at hc
        split at hc
        · cases hc
          exact hrefl st
        · exact hdfs i st c st₁ hc
      simp only [scan] at h
      split at h
      · cases h
      · cases h
        exact hchild ‹_›
      · rename_i st₁ hc
        split at h
        · cases h
          exact hchild hc
        · exact htrans (hchild hc) (ih st₁ h)

/-- **A loop that returns `false`** keeps what every search from an unvisited vertex that
returns `false` keeps, and leaves every end of the edges finished. -/
theorem scan_false {Q : (Nat → VertexStatus) → Prop}
    (hdfs : ∀ i st st', (st i).visited = false → Q st → dfs i st = some (false, st') →
      Q st' ∧ Done st st' ∧ Finished st' i) :
    ∀ (l : List Nat) (st : Nat → VertexStatus) {st'}, Q st → scan dfs l st = some (false, st') →
      Q st' ∧ Done st st' ∧ ∀ i ∈ l, Finished st' i := by
  intro l
  induction l with
  | nil =>
      intro st st' hq h
      cases h
      exact ⟨hq, Done.refl st, by simp⟩
  | cons i is ih =>
      intro st st' hq h
      simp only [scan] at h
      split at h
      · cases h
      · cases h
      · rename_i st₁ hc
        split at h
        · cases h
        · rename_i hrec
          -- the end `i` is finished after its turn: visited before, or searched now
          have hturn : Q st₁ ∧ Done st st₁ ∧ Finished st₁ i := by
            unfold child at hc
            split at hc
            · rename_i hvis
              cases hc
              exact ⟨hq, Done.refl st, hvis, Bool.eq_false_iff.mpr hrec⟩
            · rename_i hvis
              exact hdfs i st st₁ (Bool.eq_false_iff.mpr hvis) hq hc
          obtain ⟨hq₁, hdone₁, hfin₁⟩ := hturn
          obtain ⟨hq', hdone', hall⟩ := ih st₁ hq₁ h
          refine ⟨hq', hdone₁.trans hdone', ?_⟩
          intro j hj
          rcases List.mem_cons.mp hj with rfl | hj
          · exact hdone'.finished hfin₁
          · exact hall j hj

/-- **A loop that returns `true` has found a cycle**, when every vertex on the recursion stack
reaches `v`, every edge of the loop leaves `v`, and so does every search that returns `true`
from an unvisited vertex that every vertex on the stack reaches. -/
theorem scan_true {E : Nat → Nat → Prop} {v : Nat}
    (hfalse : ∀ i st st', (st i).visited = false → StackVisited st →
      dfs i st = some (false, st') → StackVisited st' ∧ Done st st')
    (htrue : ∀ i st st', (st i).visited = false → StackVisited st →
      (∀ u, (st u).recStack = true → ReflTransGen E u i) → dfs i st = some (true, st') →
      ∃ w, TransGen E w w) :
    ∀ (l : List Nat) (st : Nat → VertexStatus) {st'}, (∀ i ∈ l, E v i) → StackVisited st →
      (∀ u, (st u).recStack = true → ReflTransGen E u v) → scan dfs l st = some (true, st') →
      ∃ w, TransGen E w w := by
  intro l
  induction l with
  | nil =>
      intro st st' _ _ _ h
      cases h
  | cons i is ih =>
      intro st st' hedges hsv hanc h
      have hvi : E v i := hedges i List.mem_cons_self
      -- an end on the stack closes a cycle through `v`
      have hback : (st i).recStack = true → ∃ w, TransGen E w w :=
        fun hi => ⟨i, TransGen.tail' (hanc i hi) hvi⟩
      simp only [scan] at h
      split at h
      · cases h
      · rename_i st₁ hc
        unfold child at hc
        split at hc
        · cases hc
        · rename_i hvis
          exact htrue i st st₁ (Bool.eq_false_iff.mpr hvis) hsv
            (fun u hu => (hanc u hu).tail hvi) hc
      · rename_i st₁ hc
        -- after a `false` turn the stack is the one before it
        have hturn : StackVisited st₁ ∧ Done st st₁ := by
          unfold child at hc
          split at hc
          · cases hc
            exact ⟨hsv, Done.refl st⟩
          · rename_i hvis
            exact hfalse i st st₁ (Bool.eq_false_iff.mpr hvis) hsv hc
        obtain ⟨hsv₁, hdone₁⟩ := hturn
        split at h
        · exact hback ((hdone₁.2 i).symm.trans ‹_›)
        · refine ih st₁ (fun j hj => hedges j (List.mem_cons_of_mem i hj)) hsv₁ ?_ h
          intro u hu
          exact hanc u ((hdone₁.2 u).symm.trans hu)

/-- **The loop returns** when every search it starts from an unvisited end does, keeping `P`. -/
theorem scan_some {P : (Nat → VertexStatus) → Prop} {K : Nat → Prop}
    (hdfs : ∀ i st, K i → (st i).visited = false → P st →
      ∃ b st', dfs i st = some (b, st') ∧ P st') :
    ∀ (l : List Nat) (st : Nat → VertexStatus), (∀ i ∈ l, K i) → P st →
      ∃ r, scan dfs l st = some r := by
  intro l
  induction l with
  | nil => exact fun st _ _ => ⟨_, rfl⟩
  | cons i is ih =>
      intro st hK hP
      -- the turn of `i` returns, and keeps `P` when it returns `false`
      have hturn : ∃ b st₁, child dfs i st = some (b, st₁) ∧ P st₁ := by
        unfold child
        split
        · exact ⟨false, st, rfl, hP⟩
        · rename_i hvis
          exact hdfs i st (hK i List.mem_cons_self) (Bool.eq_false_iff.mpr hvis) hP
      obtain ⟨b, st₁, hc, hP₁⟩ := hturn
      cases b with
      | true => exact ⟨(true, st₁), by simp [scan, hc]⟩
      | false =>
          by_cases hrec : (st₁ i).recStack = true
          · exact ⟨(true, st₁), by simp [scan, hc, hrec]⟩
          · obtain ⟨r, hr⟩ := ih st₁ (fun j hj => hK j (List.mem_cons_of_mem i hj)) hP₁
            exact ⟨r, by simp [scan, hc, hrec, hr]⟩

end Scan

/-! ### The search -/

section Search

variable {g : GraphCheckCyclic} {v : Nat} {st st' : Nat → VertexStatus}

/-- What `find` finds is an entry of `vetexes`. -/
theorem find_mem {u : Nat} {l : List Nat} (h : g.find u = some l) : (u, l) ∈ g.vetexes := by
  unfold find at h
  generalize g.vetexes = m at h
  induction m with
  | nil => cases h
  | cons e m ih =>
      obtain ⟨k, l'⟩ := e
      rw [List.lookup_cons] at h
      split at h
      · rename_i heq
        cases h
        rw [beq_iff_eq.mp heq]
        exact List.mem_cons_self
      · exact List.mem_cons_of_mem _ (ih h)

theorem find_keys {u : Nat} {l : List Nat} (h : g.find u = some l) : u ∈ g.keys :=
  List.mem_map_of_mem (f := Prod.fst) (find_mem h)

/-- A graph whose every listed edge ends at a key is closed. -/
theorem closed_of_entries (h : ∀ e ∈ g.vetexes, ∀ w ∈ e.2, w ∈ g.keys) : g.Closed := by
  rintro u w ⟨l, hl, hw⟩
  exact h (u, l) (find_mem hl) w hw

theorem find_of_mem_keys (hkey : v ∈ g.keys) : ∃ adj, g.find v = some adj := by
  unfold find
  unfold keys at hkey
  generalize g.vetexes = m at hkey
  induction m with
  | nil => cases hkey
  | cons e m ih =>
      obtain ⟨k, l⟩ := e
      rw [List.lookup_cons]
      split
      · exact ⟨l, rfl⟩
      · rename_i hne
        rw [List.map_cons, List.mem_cons] at hkey
        rcases hkey with h | h
        · simp [h] at hne
        · exact ih h

/-- A search from an unvisited vertex with edges `adj` returns `false` when its loop does,
with the vertex then taken off the stack. -/
theorem isCyclicDfs_fresh_false (fuel : Nat) (hv : (st v).visited = false) {adj : List Nat}
    (hadj : g.find v = some adj) :
    g.isCyclicDfs (fuel + 1) v st = some (false, st') ↔
      ∃ st₁, scan (g.isCyclicDfs fuel) adj (mark st v) = some (false, st₁) ∧
        st' = setRec st₁ v false := by
  simp only [isCyclicDfs, hv, hadj, Bool.false_eq_true, if_false]
  rcases hs : scan (g.isCyclicDfs fuel) adj (mark st v) with _ | ⟨_ | _, st₁⟩ <;>
    simp [eq_comm]

/-- A search from an unvisited vertex with edges `adj` returns `true` when its loop does. -/
theorem isCyclicDfs_fresh_true (fuel : Nat) (hv : (st v).visited = false) {adj : List Nat}
    (hadj : g.find v = some adj) :
    g.isCyclicDfs (fuel + 1) v st = some (true, st') ↔
      scan (g.isCyclicDfs fuel) adj (mark st v) = some (true, st') := by
  simp only [isCyclicDfs, hv, hadj, Bool.false_eq_true, if_false]
  rcases hs : scan (g.isCyclicDfs fuel) adj (mark st v) with _ | ⟨_ | _, st₁⟩ <;> simp

/-- A search from a vertex that is not one reads past `vetexes`. -/
theorem isCyclicDfs_not_found (fuel : Nat) (hv : (st v).visited = false)
    (hadj : g.find v = none) : g.isCyclicDfs (fuel + 1) v st = none := by
  simp [isCyclicDfs, hv, hadj]

/-- The vertices a search has visited stay visited. -/
theorem isCyclicDfs_visited :
    ∀ (fuel v : Nat) (st : Nat → VertexStatus) {b st'},
      g.isCyclicDfs fuel v st = some (b, st') →
      ∀ u, (st u).visited = true → (st' u).visited = true := by
  -- induction on the fuel; the loop keeps the relation by `scan_rel`
  intro fuel
  induction fuel with
  | zero =>
      intro v st b st' h
      cases h
  | succ fuel ih =>
      intro v st b st' h u hu
      have hloop : ∀ {adj c st₁}, scan (g.isCyclicDfs fuel) adj (mark st v) = some (c, st₁) →
          (st₁ u).visited = true := fun hs =>
        scan_rel (R := fun st st' => ∀ u, (st u).visited = true → (st' u).visited = true)
          (fun _ _ h => h) (fun h₁ h₂ u hu => h₂ u (h₁ u hu)) (fun i st _ _ h => ih i st h)
          _ _ hs u (mark_visited v hu)
      cases hv : (st v).visited with
      | true =>
          simp only [isCyclicDfs, hv, if_true, Option.some.injEq, Prod.mk.injEq] at h
          obtain ⟨-, rfl⟩ := h
          simpa using hu
      | false =>
          cases hadj : g.find v with
          | none => rw [isCyclicDfs_not_found fuel hv hadj] at h; cases h
          | some adj =>
              cases b with
              | false =>
                  obtain ⟨st₁, hs, rfl⟩ := (isCyclicDfs_fresh_false fuel hv hadj).mp h
                  simpa using hloop hs
              | true => exact hloop ((isCyclicDfs_fresh_true fuel hv hadj).mp h)

/-- **A search that returns `false`**, from an unvisited vertex, leaves the recursion stack as
it found it, and the vertex finished. -/
theorem isCyclicDfs_false :
    ∀ (fuel v : Nat) (st : Nat → VertexStatus) {st'}, (st v).visited = false →
      StackVisited st → g.isCyclicDfs fuel v st = some (false, st') →
      StackVisited st' ∧ Done st st' ∧ Finished st' v := by
  -- induction on the fuel; the loop over the edges by `scan_false`
  intro fuel
  induction fuel with
  | zero =>
      intro v st st' _ _ h
      cases h
  | succ fuel ih =>
      intro v st st' hv hsv h
      cases hadj : g.find v with
      | none => rw [isCyclicDfs_not_found fuel hv hadj] at h; cases h
      | some adj =>
          obtain ⟨st₁, hscan, rfl⟩ := (isCyclicDfs_fresh_false fuel hv hadj).mp h
          have hsv₀ : StackVisited (mark st v) := by
            intro u hu
            by_cases huv : u = v
            · simp [huv]
            · rw [mark_of_ne huv] at hu ⊢
              exact hsv u hu
          obtain ⟨hsv₁, hdone₁, -⟩ := scan_false (Q := StackVisited)
            (fun i st st' hi hq h => ih i st hi hq h) adj (mark st v) hsv₀ hscan
          have hvrec : (st v).recStack = false := hsv.recStack_eq_false hv
          refine ⟨?_, ⟨?_, ?_⟩, ?_, by simp⟩
          · intro u hu
            by_cases huv : u = v
            · simp [huv] at hu
            · simp only [setRec_recStack, huv, if_false, setRec_visited] at hu ⊢
              exact hsv₁ u hu
          · intro u hu
            rw [setRec_visited]
            exact hdone₁.1 u (mark_visited v hu)
          · intro u
            by_cases huv : u = v
            · simp [huv, hvrec]
            · rw [setRec_recStack, if_neg huv, hdone₁.2 u, mark_of_ne huv]
          · rw [setRec_visited]
            exact hdone₁.1 v (by simp)

/-- Marking an unvisited vertex keeps only visited vertices on the stack. -/
theorem StackVisited.mark (hsv : StackVisited st) (v : Nat) : StackVisited (mark st v) := by
  intro u hu
  by_cases huv : u = v
  · subst huv
    simp
  · rw [mark_of_ne huv] at hu ⊢
    exact hsv u hu

/-- Marking an unvisited vertex finishes nothing. -/
theorem finished_mark (hv : (st v).visited = false) : Finished (mark st v) = Finished st := by
  funext u
  by_cases huv : u = v
  · subst huv
    simp [Finished, hv]
  · simp only [Finished, mark_of_ne huv]

/-- The finished vertices are closed under the edges and on no cycle. -/
def FinishedOK (g : GraphCheckCyclic) (st : Nat → VertexStatus) : Prop :=
  Digraph.Closed g.Edge (Finished st) ∧ Acyclic g.Edge (Finished st)

/-- **The finished vertices stay closed and acyclic.**  A search that returns `false` finishes
its vertex after every end of its edges, and the vertex was on the stack until then, so it
joins a closed set with no cycle on top of it (`Digraph.Acyclic.insert`). -/
theorem isCyclicDfs_finished :
    ∀ (fuel v : Nat) (st : Nat → VertexStatus) {st'}, (st v).visited = false →
      StackVisited st → FinishedOK g st → g.isCyclicDfs fuel v st = some (false, st') →
      FinishedOK g st' := by
  -- induction on the fuel; the loop over the edges by `scan_false`
  intro fuel
  induction fuel with
  | zero =>
      intro v st st' _ _ _ h
      cases h
  | succ fuel ih =>
      intro v st st' hv hsv hok h
      cases hadj : g.find v with
      | none => rw [isCyclicDfs_not_found fuel hv hadj] at h; cases h
      | some adj =>
          obtain ⟨st₁, hscan, rfl⟩ := (isCyclicDfs_fresh_false fuel hv hadj).mp h
          have hok₀ : FinishedOK g (mark st v) := by rw [FinishedOK, finished_mark hv]; exact hok
          obtain ⟨⟨-, hok₁⟩, hdone₁, hall⟩ :=
            scan_false (Q := fun st => StackVisited st ∧ FinishedOK g st)
              (fun i st st' hi hq h =>
                have hf := isCyclicDfs_false fuel i st hi hq.1 h
                ⟨⟨hf.1, ih i st hi hq.1 hq.2 h⟩, hf.2⟩)
              adj (mark st v) ⟨hsv.mark v, hok₀⟩ hscan
          -- `v` was on the stack through the loop, and its edges all end at finished vertices
          have hvrec : (st₁ v).recStack = true := by rw [hdone₁.2 v]; simp
          have hnot : ¬ Finished st₁ v := fun hfin => by rw [hfin.2] at hvrec; cases hvrec
          have hedges : ∀ w, g.Edge v w → Finished st₁ w := by
            rintro w ⟨l, hl, hw⟩
            rw [hadj, Option.some.injEq] at hl
            subst hl
            exact hall w hw
          have hfin : Finished (setRec st₁ v false) = fun u => Finished st₁ u ∨ u = v := by
            funext u
            by_cases huv : u = v
            · subst huv
              simp [Finished, hdone₁.1 u (by simp)]
            · simp [Finished, huv]
          rw [FinishedOK, hfin]
          exact ⟨hok₁.1.insert hedges, hok₁.2.insert hok₁.1 hnot hedges⟩

/-- **A search that returns `true` has found a cycle**, when every vertex on the stack reaches
the vertex it starts from. -/
theorem isCyclicDfs_true :
    ∀ (fuel v : Nat) (st : Nat → VertexStatus) {st'}, (st v).visited = false →
      StackVisited st → (∀ u, (st u).recStack = true → ReflTransGen g.Edge u v) →
      g.isCyclicDfs fuel v st = some (true, st') → ∃ w, TransGen g.Edge w w := by
  -- induction on the fuel; the loop over the edges by `scan_true`
  intro fuel
  induction fuel with
  | zero =>
      intro v st st' _ _ _ h
      cases h
  | succ fuel ih =>
      intro v st st' hv hsv hanc h
      cases hadj : g.find v with
      | none => rw [isCyclicDfs_not_found fuel hv hadj] at h; cases h
      | some adj =>
          have hscan := (isCyclicDfs_fresh_true fuel hv hadj).mp h
          refine scan_true (E := g.Edge) (v := v)
            (fun i st st' hi hsv h => (isCyclicDfs_false fuel i st hi hsv h).imp_right And.left)
            (fun i st st' hi hsv hanc h => ih i st hi hsv hanc h)
            adj (mark st v) (fun i hi => ⟨adj, hadj, hi⟩) (hsv.mark v) ?_ hscan
          -- on the stack after marking: `v` itself, and what was there, which reaches `v`
          intro u hu
          by_cases huv : u = v
          · subst huv
            exact ReflTransGen.refl
          · rw [mark_of_ne huv] at hu
            exact hanc u hu

/-! ### The search returns -/

/-- The vertices not yet visited, counted over the keys. -/
def unvisited (g : GraphCheckCyclic) (st : Nat → VertexStatus) : Nat :=
  g.keys.countP fun u => !(st u).visited

theorem unvisited_le {st' : Nat → VertexStatus}
    (h : ∀ u, (st u).visited = true → (st' u).visited = true) :
    g.unvisited st' ≤ g.unvisited st := by
  apply List.countP_mono_left
  intro u _ hu
  cases hv : (st u).visited
  · rfl
  · simp [h u hv] at hu

/-- Marking an unvisited vertex leaves one fewer to visit. -/
theorem unvisited_mark_lt (hkey : v ∈ g.keys) (hv : (st v).visited = false) :
    g.unvisited (mark st v) < g.unvisited st := by
  unfold unvisited
  generalize g.keys = l at hkey
  induction l with
  | nil => cases hkey
  | cons a l ih =>
      have hle : l.countP (fun u => !(mark st v u).visited) ≤ l.countP fun u => !(st u).visited :=
        List.countP_mono_left fun u _ hu => by
          cases hvu : (st u).visited
          · rfl
          · simp [mark_visited v hvu] at hu
      rw [List.countP_cons, List.countP_cons]
      by_cases hav : a = v
      · subst hav
        simp [hv]
        omega
      · have hl : v ∈ l := by
          rcases List.mem_cons.mp hkey with h | h
          · exact absurd h.symm hav
          · exact h
        rw [mark_of_ne hav]
        have := ih hl
        omega

/-- **The search returns**, from an unvisited vertex, with fuel at least the number of
unvisited vertices, when every edge leads to a vertex. -/
theorem isCyclicDfs_some (hc : g.Closed) :
    ∀ (fuel v : Nat) (st : Nat → VertexStatus), v ∈ g.keys → (st v).visited = false →
      g.unvisited st ≤ fuel → ∃ r, g.isCyclicDfs fuel v st = some r := by
  -- induction on the fuel; each search marks a vertex, so the count falls below it
  intro fuel
  induction fuel with
  | zero =>
      intro v st hkey hv hle
      have := unvisited_mark_lt hkey hv
      omega
  | succ fuel ih =>
      intro v st hkey hv hle
      obtain ⟨adj, hadj⟩ := find_of_mem_keys hkey
      have hmark : g.unvisited (mark st v) ≤ fuel := by
        have := unvisited_mark_lt hkey hv
        omega
      -- every search of the loop starts at a vertex and leaves no more to visit
      obtain ⟨⟨b, st₁⟩, hr⟩ := scan_some (P := fun st => g.unvisited st ≤ fuel)
        (K := (· ∈ g.keys))
        (fun i st hi hvi hP => by
          obtain ⟨⟨b, st'⟩, h⟩ := ih i st hi hvi hP
          exact ⟨b, st', h, le_trans (unvisited_le (isCyclicDfs_visited fuel i st h)) hP⟩)
        adj (mark st v) (fun i hi => hc v i ⟨adj, hadj, hi⟩) hmark
      cases b with
      | false => exact ⟨_, (isCyclicDfs_fresh_false fuel hv hadj).mpr ⟨st₁, hr, rfl⟩⟩
      | true => exact ⟨_, (isCyclicDfs_fresh_true fuel hv hadj).mpr hr⟩


end Search

/-! ### The loop over the vertices -/

section Loop

variable {g : GraphCheckCyclic} {fuel : Nat} {v : Nat} {st st' : Nat → VertexStatus}

/-- No vertex is on the recursion stack. -/
def NoStack (st : Nat → VertexStatus) : Prop := ∀ u, (st u).recStack = false

/-- A turn of `IsCyclic`'s loop that returns `false` leaves the stack empty and its vertex
finished. -/
theorem child_false (hsv : StackVisited st) (hns : NoStack st)
    (h : child (g.isCyclicDfs fuel) v st = some (false, st')) :
    StackVisited st' ∧ NoStack st' ∧ Done st st' ∧ Finished st' v := by
  unfold child at h
  split at h
  · rename_i hvis
    cases h
    exact ⟨hsv, hns, Done.refl st, hvis, hns v⟩
  · rename_i hvis
    obtain ⟨hsv', hdone, hfin⟩ := isCyclicDfs_false fuel v st (Bool.eq_false_iff.mpr hvis) hsv h
    exact ⟨hsv', fun u => (hdone.2 u).trans (hns u), hdone, hfin⟩

/-- A turn of `IsCyclic`'s loop that returns `false` keeps the finished vertices closed and
acyclic. -/
theorem child_finishedOK (hsv : StackVisited st) (hok : FinishedOK g st)
    (h : child (g.isCyclicDfs fuel) v st = some (false, st')) : FinishedOK g st' := by
  unfold child at h
  split at h
  · cases h
    exact hok
  · rename_i hvis
    exact isCyclicDfs_finished fuel v st (Bool.eq_false_iff.mpr hvis) hsv hok h

/-- **`IsCyclic`'s loop returns `true` only on a cycle.** -/
theorem isCyclicLoop_true :
    ∀ (vs : List Nat) (st : Nat → VertexStatus), StackVisited st → NoStack st →
      g.isCyclicLoop fuel vs st = some true → ∃ w, TransGen g.Edge w w := by
  intro vs
  induction vs with
  | nil =>
      intro st _ _ h
      cases h
  | cons v vs ih =>
      intro st hsv hns h
      simp only [isCyclicLoop] at h
      split at h
      · cases h
      · rename_i st₁ hc
        -- a search from a vertex of the loop starts with nothing on the stack
        unfold child at hc
        split at hc
        · cases hc
        · rename_i hvis
          exact isCyclicDfs_true fuel v st (Bool.eq_false_iff.mpr hvis) hsv
            (fun u hu => by rw [hns u] at hu; cases hu) hc
      · rename_i st₁ hc
        obtain ⟨hsv₁, hns₁, -, -⟩ := child_false hsv hns hc
        exact ih st₁ hsv₁ hns₁ h

/-- **`IsCyclic`'s loop returns `false` only when the vertices it went through, and those
finished before, are on no cycle.** -/
theorem isCyclicLoop_false :
    ∀ (vs : List Nat) (st : Nat → VertexStatus), StackVisited st → NoStack st →
      FinishedOK g st → g.isCyclicLoop fuel vs st = some false →
      ∀ u, u ∈ vs ∨ Finished st u → ¬ TransGen g.Edge u u := by
  intro vs
  induction vs with
  | nil =>
      intro st _ _ hok _ u hu
      rcases hu with hu | hu
      · cases hu
      · exact hok.2 u hu
  | cons v vs ih =>
      intro st hsv hns hok h u hu
      simp only [isCyclicLoop] at h
      split at h
      · cases h
      · cases h
      · rename_i st₁ hc
        obtain ⟨hsv₁, hns₁, hdone₁, hfin₁⟩ := child_false hsv hns hc
        apply ih st₁ hsv₁ hns₁ (child_finishedOK hsv hok hc) h u
        -- `v` is now finished, and so is every vertex that was
        rcases hu with hu | hu
        · rcases List.mem_cons.mp hu with rfl | hu
          · exact .inr hfin₁
          · exact .inl hu
        · exact .inr (hdone₁.finished hu)

/-- **`IsCyclic`'s loop returns** over vertices, with fuel above the number of vertices, when
every edge leads to a vertex. -/
theorem isCyclicLoop_some (hc : g.Closed) (hfuel : g.keys.length ≤ fuel) :
    ∀ (vs : List Nat) (st : Nat → VertexStatus), (∀ v ∈ vs, v ∈ g.keys) →
      ∃ r, g.isCyclicLoop fuel vs st = some r := by
  intro vs
  induction vs with
  | nil => exact fun _ _ => ⟨false, rfl⟩
  | cons v vs ih =>
      intro st hkeys
      have hturn : ∃ b st₁, child (g.isCyclicDfs fuel) v st = some (b, st₁) := by
        unfold child
        split
        · exact ⟨false, st, rfl⟩
        · rename_i hvis
          have hcount : g.unvisited st ≤ fuel := le_trans (List.countP_le_length) hfuel
          obtain ⟨⟨b, st₁⟩, h⟩ :=
            isCyclicDfs_some hc fuel v st (hkeys v List.mem_cons_self)
            (Bool.eq_false_iff.mpr hvis) hcount
          exact ⟨b, st₁, h⟩
      obtain ⟨b, st₁, hc'⟩ := hturn
      cases b with
      | true => exact ⟨true, by simp [isCyclicLoop, hc']⟩
      | false =>
          obtain ⟨r, hr⟩ := ih st₁ fun w hw => hkeys w (List.mem_cons_of_mem v hw)
          exact ⟨r, by simp [isCyclicLoop, hc', hr]⟩

end Loop

/-! ### `IsCyclic` -/

section IsCyclic

variable {g : GraphCheckCyclic}

/-- **`IsCyclic` returns** when every edge leads to a vertex. -/
theorem isCyclic_some (hc : g.Closed) : ∃ b, g.isCyclic = some b :=
  isCyclicLoop_some hc (by simp [keys]) _ _ fun _ h => h

/-- **`IsCyclic` returns `true` only on a cycle.** -/
theorem isCyclic_true (h : g.isCyclic = some true) : ∃ v, TransGen g.Edge v v :=
  isCyclicLoop_true _ _ (fun _ h => h) (fun _ => rfl) h

/-- **`IsCyclic` returns `false` only when there is no cycle**: each vertex is on none, and a
cycle goes through a vertex, the start of its first edge. -/
theorem isCyclic_false (h : g.isCyclic = some false) : ¬ ∃ v, TransGen g.Edge v v := by
  rintro ⟨v, hcyc⟩
  have hnone : FinishedOK g fun _ => ⟨false, false⟩ :=
    ⟨fun _ _ _ hu => absurd hu.1 Bool.false_ne_true, fun _ hu => absurd hu.1 Bool.false_ne_true⟩
  obtain ⟨w, ⟨l, hl, -⟩, -⟩ := TransGen.head'_iff.mp hcyc
  exact isCyclicLoop_false _ _ (fun _ h => h) (fun _ => rfl) hnone h v (.inl (find_keys hl)) hcyc

/-- On a graph whose edges all lead to vertices, `IsCyclic` returns, and returns `true` exactly
on a cycle. -/
theorem isCyclic_spec (hc : g.Closed) :
    (∃ b, g.isCyclic = some b) ∧ (g.isCyclic = some true ↔ ∃ v, TransGen g.Edge v v) := by
  obtain ⟨b, hb⟩ := isCyclic_some hc
  refine ⟨⟨b, hb⟩, isCyclic_true, fun hcyc => ?_⟩
  cases b with
  | true => exact hb
  | false => exact absurd hcyc (isCyclic_false hb)

end IsCyclic

/-! ### Graphs built by the operations -/

/-- The operations of `GraphCheckCyclic` that change the graph. -/
inductive GraphOp
  | addVetex (label : Nat)
  | addEdge (startLabel endLabel : Nat)
  | removeEdge (endLabel : Nat)
  deriving DecidableEq, Repr

/-- What an operation does. -/
def apply (g : GraphCheckCyclic) : GraphOp → GraphCheckCyclic
  | .addVetex label => g.addVetexByLabel label
  | .addEdge startLabel endLabel => g.addEdgeByLabel startLabel endLabel
  | .removeEdge endLabel => g.removeEdgeByLabel endLabel

/-- The graph the operations build from an empty one. -/
def build (ops : List GraphOp) : GraphCheckCyclic := ops.foldl apply empty

/-- **The deadlock check finds exactly the cycles.**  For a graph built by any operations whose
edges all lead to vertices, `IsCyclic` returns, and returns `true` exactly when the graph has a
cycle. -/
theorem isCyclic_iff (ops : List GraphOp) (hc : (build ops).Closed) :
    (∃ b, (build ops).isCyclic = some b) ∧
      ((build ops).isCyclic = some true ↔ ∃ v, TransGen (build ops).Edge v v) :=
  isCyclic_spec hc

theorem isCyclic_iff_twoCycle :
    (build [.addVetex 1, .addVetex 2, .addEdge 1 2, .addEdge 2 1]).Closed ∧
      (build [.addVetex 1, .addVetex 2, .addEdge 1 2, .addEdge 2 1]).isCyclic = some true ∧
      ∃ v, TransGen (build [.addVetex 1, .addVetex 2, .addEdge 1 2, .addEdge 2 1]).Edge v v := by
  have hc := closed_of_entries (g := build [.addVetex 1, .addVetex 2, .addEdge 1 2, .addEdge 2 1])
    (by decide)
  have h := isCyclic_iff [.addVetex 1, .addVetex 2, .addEdge 1 2, .addEdge 2 1] hc
  have htrue : (build [.addVetex 1, .addVetex 2, .addEdge 1 2, .addEdge 2 1]).isCyclic =
      some true := by decide
  exact ⟨hc, htrue, h.2.1 htrue⟩

/-! ### The graphs of `MutexGraph` -/

section MutexGraph

variable {g : GraphCheckCyclic}

/-- Every edge that `vetexes` lists ends at a vertex. -/
def EntriesClosed (g : GraphCheckCyclic) : Prop := ∀ e ∈ g.vetexes, ∀ w ∈ e.2, w ∈ g.keys

theorem modifyEntry_keys (k : Nat) (f : List Nat → List Nat) (m : List (Nat × List Nat)) :
    (modifyEntry k f m).map Prod.fst = m.map Prod.fst := by
  induction m with
  | nil => rfl
  | cons e m ih =>
      simp only [modifyEntry]
      split <;> simp [ih]

/-- An entry after `modifyEntry` is an old one, or an old one's key with `f` of its list. -/
theorem mem_modifyEntry {k : Nat} {f : List Nat → List Nat} {m : List (Nat × List Nat)}
    {e : Nat × List Nat} (h : e ∈ modifyEntry k f m) :
    e ∈ m ∨ ∃ e' ∈ m, e = (e'.1, f e'.2) := by
  induction m with
  | nil => cases h
  | cons e₀ m ih =>
      simp only [modifyEntry] at h
      split at h
      · rcases List.mem_cons.mp h with rfl | h
        · exact .inr ⟨e₀, by simp, rfl⟩
        · exact .inl (List.mem_cons_of_mem _ h)
      · rcases List.mem_cons.mp h with rfl | h
        · exact .inl (by simp)
        · rcases ih h with h | ⟨e', he', rfl⟩
          · exact .inl (List.mem_cons_of_mem _ h)
          · exact .inr ⟨e', List.mem_cons_of_mem _ he', rfl⟩

theorem mem_keys_addVetexByLabel (g : GraphCheckCyclic) (label : Nat) :
    label ∈ (g.addVetexByLabel label).keys := by
  unfold addVetexByLabel
  split
  · assumption
  · exact List.mem_map_of_mem (f := Prod.fst) (Multimap.mem_insert.mpr (.inl rfl))

theorem EntriesClosed.addVetex (h : g.EntriesClosed) (label : Nat) :
    (g.addVetexByLabel label).EntriesClosed := by
  unfold addVetexByLabel
  split
  · exact h
  · intro e he w hw
    rcases Multimap.mem_insert.mp he with rfl | he
    · cases hw
    · -- the old keys are among the new ones
      exact ((Multimap.sublist_insert label [] g.vetexes).map Prod.fst).subset (h e he w hw)

/-- An edge into a vertex keeps every edge leading to a vertex. -/
theorem EntriesClosed.addEdge (h : g.EntriesClosed) {startLabel endLabel : Nat}
    (hend : endLabel ∈ g.keys) : (g.addEdgeByLabel startLabel endLabel).EntriesClosed := by
  intro e he w hw
  have hkeys : (g.addEdgeByLabel startLabel endLabel).keys = g.keys := modifyEntry_keys _ _ _
  rw [hkeys]
  rcases mem_modifyEntry he with he | ⟨e', he', rfl⟩
  · exact h e he w hw
  · rcases List.mem_append.mp hw with hw | hw
    · exact h e' he' w hw
    · rw [List.mem_singleton.mp hw]
      exact hend

theorem EntriesClosed.removeEdge (h : g.EntriesClosed) (endLabel : Nat) :
    (g.removeEdgeByLabel endLabel).EntriesClosed := by
  intro e he w hw
  have hkeys : (g.removeEdgeByLabel endLabel).keys = g.keys := modifyEntry_keys _ _ _
  rw [hkeys]
  rcases mem_modifyEntry he with he | ⟨e', -, rfl⟩
  · exact h e he w hw
  · cases hw

/-- A call of `MutexGraph`, made one step by its `mutex`. -/
inductive MutexGraphOp
  | addNode (task ownerTask : Nat) (edge : Bool)
  | removeNode (task : Nat)
  deriving DecidableEq, Repr

/-- The graph operations of a call: `AddNode(task, ownerTask, edge)` adds the vertex `task`,
then, if `edge`, the edge from `ownerTask` to it, before its `IsCyclic` check;
`RemoveNode(task)` clears the edges of `task`. -/
def MutexGraphOp.ops : MutexGraphOp → List GraphOp
  | .addNode task ownerTask edge =>
      .addVetex task :: if edge then [.addEdge ownerTask task] else []
  | .removeNode task => [.removeEdge task]

theorem entriesClosed_ops (h : g.EntriesClosed) (call : MutexGraphOp) :
    (call.ops.foldl apply g).EntriesClosed := by
  cases call with
  | addNode task ownerTask edge =>
      cases edge with
      | false => exact h.addVetex task
      | true => exact (h.addVetex task).addEdge (mem_keys_addVetexByLabel g task)
  | removeNode task => exact h.removeEdge task

/-- **Every graph `MutexGraph` builds has its edges lead to vertices**: `AddNode` adds the
vertex before the edge into it, and no call removes a vertex. -/
theorem addNode_closed (calls : List MutexGraphOp) :
    (build (calls.flatMap MutexGraphOp.ops)).Closed := by
  -- induction on the calls, from any graph whose listed edges end at vertices
  have key : ∀ g : GraphCheckCyclic, g.EntriesClosed →
      ((calls.flatMap MutexGraphOp.ops).foldl apply g).EntriesClosed := by
    induction calls with
    | nil => exact fun _ h => h
    | cons call calls ih =>
        intro g h
        rw [List.flatMap_cons, List.foldl_append]
        exact ih _ (entriesClosed_ops h call)
  exact closed_of_entries (key empty fun e he => by cases he)

/-- **The deadlock check of `MutexGraph` finds exactly the cycles.**  After any calls of
`AddNode` and `RemoveNode`, the `IsCyclic` check returns, and returns `true` exactly when the
graph of waiting tasks has a cycle. -/
theorem mutexGraph_isCyclic (calls : List MutexGraphOp) :
    (∃ b, (build (calls.flatMap MutexGraphOp.ops)).isCyclic = some b) ∧
      ((build (calls.flatMap MutexGraphOp.ops)).isCyclic = some true ↔
        ∃ v, TransGen (build (calls.flatMap MutexGraphOp.ops)).Edge v v) :=
  isCyclic_spec (addNode_closed calls)

end MutexGraph

end GraphCheckCyclic

end Ffrt.Util

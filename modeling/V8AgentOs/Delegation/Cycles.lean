import Mathlib.Data.List.Dedup
import Mathlib.Data.String.Basic
import V8AgentOs.Delegation.Waves
import V8AgentOs.Lib.DepthFirst

-- core/tools/native/runtime.py, `_task_dependency_cycles`: what makes a route refuse its tasks
namespace Delegation.Cycles

open DepthFirst
open Python

open Relation (ReflTransGen TransGen)

section Definitions

variable (text : Text)

def briefs (tasks : List Json) : List Dict :=
  tasks.filterMap fun
    | .dict members => some members
    | _             => none

def taskId (task : Dict) : String :=
  text.stripped (Python.orElse (task.get "taskBriefId") (Python.orElse (task.get "task_brief_id") (task.get "taskId")))

def localIds (tasks : List Json) : List String :=
  ((briefs tasks).map (taskId text)).filter (· ≠ "")

-- `list(dict.fromkeys(...))` keeps the first of equal names.
def localDependencies (tasks : List Json) (task : Dict) : List String :=
  let raw := Python.orElse (task.get "dependencies") (Python.orElse (task.get "dependency") (.list []))
  (((Waves.listed raw).map text.stripped).filter (· ∈ localIds text tasks)).reverse.dedup.reverse

-- The last of the tasks with one name decides.
def graph (tasks : List Json) : String → List String :=
  (briefs tasks).foldl (fun graph task =>
    if taskId text task = "" then graph
    else Function.update graph (taskId text task) (localDependencies text tasks task)) fun _ => []

end Definitions

structure Found where
  cycleKeys : List (List String)
  cycles    : List (List String)

def rotations (members : List String) : List (List String) :=
  (List.range members.length).map fun index => members.drop index ++ members.take index

-- An edge to a task that is still being visited
def close (stack : List String) (dependency : String) (found : Found) : Found :=
  let members := stack.drop (stack.idxOf dependency)
  if members = [] then found
  else
    let canonical := (rotations members).min?.getD []
    if canonical ∈ found.cycleKeys then found
    else ⟨found.cycleKeys ++ [canonical], found.cycles ++ [canonical ++ canonical.take 1]⟩

def taskDependencyCycles (text : Text) (tasks : List Json) : List (List String) :=
  let ids := localIds text tasks
  let visited := DepthFirst.search (graph text tasks) close ids.length ids ⟨fun _ => .white, [], ⟨[], []⟩⟩
  visited.found.cycles.insertionSort (· ≤ ·)

variable {text : Text} {tasks : List Json} {stack members other : List String} {dependency : String}
  {found found' : Found} {edges : String → List String}

section Canonical

theorem mem_rotations (hne : members ≠ []) :
    other ∈ rotations members ↔ members.IsRotated other := by
  have hpos : 0 < members.length := List.length_pos_iff.mpr hne
  rw [rotations, List.mem_map, List.isRotated_iff_mod]
  constructor
  case mp =>
    rintro ⟨index, hindex, rfl⟩
    have hle : index ≤ members.length := (List.mem_range.mp hindex).le
    exact ⟨index, hle, List.rotate_eq_drop_append_take hle⟩
  case mpr =>
    rintro ⟨index, hle, rfl⟩
    cases hle.lt_or_eq
    case inl hlt => exact ⟨index, List.mem_range.mpr hlt, (List.rotate_eq_drop_append_take hle).symm⟩
    case inr heq => exact ⟨0, List.mem_range.mpr hpos, by simp [heq]⟩

-- A circuit, written from its least member on
structure Canonical (edges : String → List String) (key : List String) : Prop where
  circuit : Circuit edges key
  least   : ∀ other, key.IsRotated other → key ≤ other

theorem canonical_rotation (h : Circuit edges members) : Canonical edges ((rotations members).min?.getD []) := by
  cases hmin : (rotations members).min?
  case none =>
    have hself : members ∈ rotations members := (mem_rotations h.nonempty).mpr (.refl members)
    exact absurd (List.min?_eq_none_iff.mp hmin) (List.ne_nil_of_mem hself)
  case some key =>
    have ⟨hmem, hleast⟩ := List.min?_eq_some_iff.mp hmin
    have hrotated := (mem_rotations h.nonempty).mp hmem
    constructor
    case circuit => exact h.rotated hrotated
    case least   => exact fun other hother => hleast other ((mem_rotations h.nonempty).mpr (hrotated.trans hother))

end Canonical

section Reports

structure Found.Sound (edges : String → List String) (found : Found) : Prop where
  nodup     : found.cycleKeys.Nodup
  canonical : ∀ key ∈ found.cycleKeys, Canonical edges key
  cycles    : found.cycles = found.cycleKeys.map fun key => key ++ key.take 1

theorem close_sound (hs : found.Sound edges) (hc : Closes edges stack dependency) :
    (close stack dependency found).Sound edges := by
  have hkey := canonical_rotation hc.circuit
  unfold close
  simp only
  rw [if_neg hc.circuit.nonempty]
  generalize (rotations (stack.drop (stack.idxOf dependency))).min?.getD [] = key at hkey
  split
  case isTrue => exact hs
  case isFalse hfresh =>
    constructor
    case nodup     => exact List.nodup_middle.mpr (List.nodup_cons.mpr ⟨by simpa using hfresh, by simpa using hs.nodup⟩)
    case canonical => exact List.forall_mem_append.mpr ⟨hs.canonical, by simpa using hkey⟩
    case cycles    => rw [List.map_append, hs.cycles]; rfl

theorem close_found (hc : Closes edges stack dependency) : (close stack dependency found).cycleKeys ≠ [] := by
  unfold close
  simp only
  rw [if_neg hc.circuit.nonempty]
  split
  case isTrue hmem => exact List.ne_nil_of_mem hmem
  case isFalse     => simp

theorem sound_of_reports (hs : found.Sound edges) (hr : ReflTransGen (Reports edges close) found found') :
    found'.Sound edges := by
  induction hr
  case refl => exact hs
  case tail hstep hi =>
    have ⟨stack, dependency, hc, heq⟩ := hstep
    exact heq ▸ close_sound hi hc

end Reports

section Tasks

theorem mem_graph {id : String} (h : dependency ∈ graph text tasks id) :
    id ∈ localIds text tasks ∧ dependency ∈ localIds text tasks := by
  have hfold (all : List Dict) (start : String → List String) : dependency ∈ (all.foldl (fun graph task =>
        if taskId text task = "" then graph
        else Function.update graph (taskId text task) (localDependencies text tasks task)) start) id →
      dependency ∈ start id ∨ ((∃ task ∈ all, taskId text task = id ∧ id ≠ "") ∧ dependency ∈ localIds text tasks) := by
    induction all generalizing start
    case nil => exact .inl
    case cons task all hi =>
      intro hmem
      cases hi _ hmem
      case inr hrest =>
        have ⟨⟨other, ho, hid⟩, hlocal⟩ := hrest
        exact .inr ⟨⟨other, List.mem_cons_of_mem _ ho, hid⟩, hlocal⟩
      case inl hstart =>
        simp only at hstart
        split at hstart
        case isTrue => exact .inl hstart
        case isFalse hne =>
          by_cases hid : id = taskId text task
          case pos =>
            rw [hid, Function.update_self, localDependencies, List.mem_reverse, List.mem_dedup, List.mem_reverse,
              List.mem_filter] at hstart
            exact .inr ⟨⟨task, List.mem_cons_self, hid.symm, hid ▸ hne⟩, by simpa using hstart.right⟩
          case neg => exact .inl (by rwa [Function.update_of_ne hid] at hstart)
  have ⟨⟨task, htask, hid, hne⟩, hlocal⟩ := (hfold (briefs tasks) _ h).resolve_left List.not_mem_nil
  exact ⟨List.mem_filter.mpr ⟨List.mem_map.mpr ⟨task, htask, hid⟩, by simpa using hne⟩, hlocal⟩

-- The result lists circuits of the local dependencies, each once and from its least member on, and it lists none only
-- where no task waits for itself.
theorem cycles_exact (text : Text) (tasks : List Json) :
    (taskDependencyCycles text tasks).Pairwise (· < ·) ∧
    (∀ cycle ∈ taskDependencyCycles text tasks, ∃ key, Canonical (graph text tasks) key ∧ cycle = key ++ key.take 1) ∧
    (taskDependencyCycles text tasks = [] ↔ ∀ id, ¬TransGen (fun a b => b ∈ graph text tasks a) id id) := by
  have hclean (stack : List String) (dependency : String) (found : Found)
      (hc : Closes (graph text tasks) stack dependency) : ¬(close stack dependency found).cycleKeys = [] :=
    close_found hc
  have hall (a : String) : ∀ b ∈ graph text tasks a, b ∈ localIds text tasks := fun b hb => (mem_graph hb).right
  have ⟨hreports, hacc⟩ := DepthFirst.search_exact close (·.cycleKeys = []) hclean hall (List.Subset.refl _) ⟨[], []⟩
  generalize hvisited : DepthFirst.search (graph text tasks) close (localIds text tasks).length (localIds text tasks)
    ⟨fun _ => .white, [], ⟨[], []⟩⟩ = visited at hreports hacc
  have hresult : taskDependencyCycles text tasks = visited.found.cycles.insertionSort (· ≤ ·) := by
    rw [taskDependencyCycles, hvisited]
  have hempty : (⟨[], []⟩ : Found).Sound (graph text tasks) := ⟨List.nodup_nil, by simp, rfl⟩
  have hsound : visited.found.Sound (graph text tasks) := sound_of_reports hempty hreports
  have hperm := List.perm_insertionSort (· ≤ ·) visited.found.cycles
  have hnil : taskDependencyCycles text tasks = [] ↔ visited.found.cycleKeys = [] := by
    rw [hresult, ← List.length_eq_zero_iff, hperm.length_eq, hsound.cycles, List.length_map, List.length_eq_zero_iff]
  refine ⟨?sorted, ?genuine, ?exact⟩
  case sorted =>
    have hinj : ∀ key ∈ visited.found.cycleKeys, ∀ other ∈ visited.found.cycleKeys,
        key ++ key.take 1 = other ++ other.take 1 → key = other := by
      intro key hk other ho heq
      have hk := (hsound.canonical key hk).circuit.nonempty
      have ho := (hsound.canonical other ho).circuit.nonempty
      cases key
      case nil => exact absurd rfl hk
      case cons =>
        cases other
        case nil  => exact absurd rfl ho
        case cons => exact (List.append_inj' heq rfl).left
    have hnodup : visited.found.cycles.Nodup := hsound.cycles ▸ hsound.nodup.map_on hinj
    rw [hresult]
    have hsorted := List.pairwise_insertionSort (· ≤ ·) visited.found.cycles
    exact hsorted.imp₂ (fun _ _ hle hne => lt_of_le_of_ne hle hne) (hperm.nodup_iff.mpr hnodup)
  case genuine =>
    intro cycle hcycle
    rw [hresult, hperm.mem_iff, hsound.cycles] at hcycle
    have ⟨key, hk, heq⟩ := List.mem_map.mp hcycle
    exact ⟨key, hsound.canonical key hk, heq.symm⟩
  case exact =>
    rw [hnil]
    constructor
    case mp =>
      intro hclean id hid
      have hlocal : id ∈ localIds text tasks := by
        have ⟨b, hb, _⟩ := TransGen.head'_iff.mp hid
        exact (mem_graph hb).left
      exact not_transGen_of_acc (hacc hclean id hlocal) (Relation.transGen_swap.mpr hid)
    case mpr =>
      intro hno
      apply List.eq_nil_iff_forall_not_mem.mpr
      intro key hk
      have ⟨id, hid⟩ := (hsound.canonical key hk).circuit.transGen
      exact hno id hid

end Tasks
end Delegation.Cycles

import V8AgentOs.Canvas.Normal
import V8AgentOs.Lib.Peeling

-- What it means that the validation visits all nodes of a graph
namespace Canvas

open Peeling (Peeled)

variable {r : Rules} {d : Document} {targets queue taken : List String} {indegree : String → ℕ}
  {current nodeId : String} {arcs : List (String × String)}

-- The targets whose last edge is lost
theorem release_eq (queue : List String) (h : ∀ target, targets.count target ≤ indegree target) : ∃ new : List String,
    Rules.release targets queue indegree = (queue ++ new, fun target => indegree target - targets.count target) ∧
    new.Nodup ∧ ∀ target, target ∈ new ↔ target ∈ targets ∧ indegree target = targets.count target := by
  induction targets generalizing queue indegree
  case nil => exact ⟨[], by simp [Rules.release], List.nodup_nil, by simp⟩
  case cons target targets hi =>
    have hpos : 0 < indegree target := by
      have := h target
      rw [List.count_cons_self] at this
      omega
    have hrest : ∀ other, targets.count other ≤ Function.update indegree target (indegree target - 1) other := by
      intro other
      have := h other
      by_cases hother : other = target
      case pos =>
        rw [hother, List.count_cons_self] at this
        rw [hother, Function.update_self]
        omega
      case neg =>
        rw [List.count_cons_of_ne (Ne.symm hother)] at this
        rwa [Function.update_of_ne hother]
    have hself : Function.update indegree target (indegree target - 1) target = indegree target - 1 :=
      Function.update_self ..
    have hother {other : String} (hne : other ≠ target) :
        Function.update indegree target (indegree target - 1) other = indegree other := Function.update_of_ne hne ..
    have hdegrees : (fun other => Function.update indegree target (indegree target - 1) other - targets.count other) =
        fun other => indegree other - (target :: targets).count other := by
      funext other
      by_cases hne : other = target
      case pos =>
        rw [hne, hself, List.count_cons_self]
        omega
      case neg => rw [hother hne, List.count_cons_of_ne (Ne.symm hne)]
    rw [Rules.release]
    by_cases hlast : indegree target = 1
    case pos =>
      have hgone : target ∉ targets := by
        have := hrest target
        rw [hself, hlast] at this
        exact List.count_eq_zero.mp (Nat.le_zero.mp this)
      obtain ⟨new, heq, hnodup, hnew⟩ := hi (queue ++ [target]) hrest
      have hfresh : target ∉ new := fun hmem => hgone ((hnew target).mp hmem).left
      refine ⟨target :: new, ?_, List.nodup_cons.mpr ⟨hfresh, hnodup⟩, ?_⟩
      · rw [if_pos (by rw [hself, hlast]), heq, hdegrees, List.append_assoc, List.singleton_append]
      · intro other
        by_cases hne : other = target
        case pos => simp [hne, hlast, List.count_eq_zero.mpr hgone]
        case neg => rw [List.mem_cons, List.mem_cons, hnew, hother hne, List.count_cons_of_ne (Ne.symm hne)]; simp [hne]
    case neg =>
      obtain ⟨new, heq, hnodup, hnew⟩ := hi queue hrest
      refine ⟨new, ?_, hnodup, ?_⟩
      · rw [if_neg (by rw [hself]; omega), heq, hdegrees]
      · intro other
        by_cases hne : other = target
        case pos =>
          rw [hne, hnew, hself, List.count_cons_self]
          constructor
          · rintro ⟨-, hcount⟩
            exact ⟨List.mem_cons_self, by omega⟩
          · rintro ⟨-, hcount⟩
            exact ⟨List.count_pos_iff.mp (by omega), by omega⟩
        case neg => rw [hnew, hother hne, List.count_cons_of_ne (Ne.symm hne)]; simp [hne]

-- The edges into a node from what has not been taken
def waiting (arcs : List (String × String)) (taken : List String) (nodeId : String) : ℕ :=
  arcs.countP fun arc => arc.2 = nodeId && !taken.contains arc.1

theorem length_incoming : (r.incoming d nodeId).length = waiting (r.arcs d) [] nodeId := by
  rw [waiting, Rules.arcs, List.countP_map, Rules.incoming, List.countP_eq_length_filter.symm]
  simp [Function.comp_def]

theorem outgoing_targets : (r.outgoing d current).map (r.member · "to") =
    ((r.arcs d).filter (·.1 = current)).map (·.2) := by
  rw [Rules.arcs, List.filter_map, List.map_map]
  rfl

theorem waiting_take (hfresh : current ∉ taken) : waiting arcs taken nodeId =
    ((arcs.filter (·.1 = current)).map (·.2)).count nodeId + waiting arcs (taken ++ [current]) nodeId := by
  unfold waiting
  induction arcs
  case nil => rfl
  case cons arc arcs hi =>
    rw [List.countP_cons, List.countP_cons, hi]
    by_cases hsource : arc.1 = current
    case pos =>
      rw [List.filter_cons_of_pos (by simpa using hsource), List.map_cons, List.count_cons]
      simp [hsource, hfresh]
      omega
    case neg =>
      rw [List.filter_cons_of_neg (by simpa using hsource)]
      simp [hsource]
      omega

-- Who needs whom to be visited
def Enters (r : Rules) (d : Document) (a b : String) : Prop :=
  (b, a) ∈ r.arcs d

theorem waiting_eq_zero : waiting (r.arcs d) taken nodeId = 0 ↔ ∀ b, Enters r d nodeId b → b ∈ taken := by
  rw [waiting, List.countP_eq_zero]
  constructor
  case mp =>
    intro h b hb
    simpa using h (b, nodeId) hb
  case mpr =>
    rintro h ⟨a, b⟩ hab
    by_cases hb : b = nodeId
    case pos => subst hb; simpa using h a hab
    case neg => simp [hb]

-- The visit goes on until nothing is ready.
theorem visit_peeled {fuel : ℕ} (hedges : ∀ arc ∈ r.arcs d, arc.2 ∈ r.nodeIds d)
    (h : Peeled (r.nodeIds d) (Enters r d) taken queue) (hfuel : (r.nodeIds d).length ≤ taken.length + fuel)
    (hdegree : indegree = waiting (r.arcs d) taken) :
    ∃ visited, Peeled (r.nodeIds d) (Enters r d) visited [] ∧
      r.visit d fuel queue indegree + taken.length = visited.length := by
  induction fuel generalizing taken queue indegree
  case zero =>
    have hlength := h.length_le
    have hnil : queue = [] := List.length_eq_zero_iff.mp (by omega)
    subst hnil
    exact ⟨taken, h, by simp [Rules.visit]⟩
  case succ fuel hi =>
    cases queue
    case nil => exact ⟨taken, h, by simp [Rules.visit]⟩
    case cons current queue =>
      have hfresh : current ∉ taken := fun hmem =>
        (List.nodup_append.mp h.nodup).right.right current hmem current List.mem_cons_self rfl
      have htake (target : String) : waiting (r.arcs d) taken target =
          ((r.outgoing d current).map (r.member · "to")).count target +
            waiting (r.arcs d) (taken ++ [current]) target := by
        rw [outgoing_targets, waiting_take hfresh]
      have htarget {target : String} :
          target ∈ (r.outgoing d current).map (r.member · "to") ↔ Enters r d target current := by
        simp [outgoing_targets, Enters]
      have hcount (target : String) :
          ((r.outgoing d current).map (r.member · "to")).count target ≤ indegree target := by
        rw [hdegree, htake]
        exact Nat.le_add_right _ _
      obtain ⟨new, hrelease, hnodup, hnew⟩ := release_eq queue hcount
      have hstep := h.step hnodup fun target => by
        rw [hnew, hdegree, htake, htarget, ← waiting_eq_zero]
        constructor
        · rintro ⟨henters, hcount⟩
          exact ⟨hedges _ henters, henters, by omega⟩
        · rintro ⟨-, henters, hzero⟩
          exact ⟨henters, by omega⟩
      obtain ⟨visited, hvisited, hlength⟩ := hi hstep (by rw [List.length_append, List.length_singleton]; omega) rfl
      refine ⟨visited, hvisited, ?_⟩
      have hdegrees : (fun target => indegree target - ((r.outgoing d current).map (r.member · "to")).count target) =
          waiting (r.arcs d) (taken ++ [current]) := by
        funext target
        rw [hdegree, htake, Nat.add_sub_cancel_left]
      have hvisit : r.visit d (fuel + 1) (current :: queue) indegree =
          r.visit d fuel (queue ++ new) (waiting (r.arcs d) (taken ++ [current])) + 1 := by
        rw [Rules.visit, hrelease, hdegrees]
      rw [List.length_append, List.length_singleton] at hlength
      omega

-- Data edges go up.
theorem exists_rank (hnodup : (r.nodeIds d).Nodup) (hedges : ∀ arc ∈ r.arcs d, arc.2 ∈ r.nodeIds d)
    (hacyclic : r.acyclic d = true) : ∃ rank : String → ℕ, (∀ a, rank a ≤ d.nodes.length) ∧
      ∀ a b, (a, b) ∈ r.arcs d → rank a < rank b := by
  have hdegree : (fun nodeId => (r.incoming d nodeId).length) = waiting (r.arcs d) [] := by
    funext nodeId
    exact length_incoming
  have hstart : Peeled (r.nodeIds d) (Enters r d) []
      ((r.nodeIds d).filter fun nodeId => (r.incoming d nodeId).length = 0) := by
    apply Peeled.start (hnodup.filter _)
    intro nodeId
    rw [List.mem_filter, decide_eq_true_iff, length_incoming, waiting_eq_zero]
    simp
  have hfuel : (r.nodeIds d).length ≤ ([] : List String).length + (r.nodeIds d).length := Nat.le_add_left _ _
  obtain ⟨visited, hvisited, hlength⟩ := visit_peeled hedges hstart hfuel hdegree
  have hall : visited.length = (r.nodeIds d).length := by
    rw [Rules.acyclic, decide_eq_true_iff] at hacyclic
    exact hlength.symm.trans hacyclic
  refine ⟨visited.idxOf, ?_, fun a b hab => hvisited.rank hall b (hedges _ hab) a hab⟩
  intro a
  rw [← d.nodes.length_map (r.member · "nodeId")]
  exact hall ▸ List.idxOf_le_length

end Canvas

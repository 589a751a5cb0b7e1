import V8AgentOs.Neighbor.WakeQueue

-- What a step makes of the items of the wake queue
namespace Neighbor.WakeQueue

variable {s t u : State} {e e' : Event} {es es' : List Event} {i j : Item} {id now worker later : String} {w w' : Work}
  {queue : Queue}

-- What a step makes of an item
inductive Moves (s : State) (e : Event) (i : Item) : Item → Prop
  | same (handed : e.handed ≠ some i.id) (failed : e.failed ≠ some i.id) : Moves s e i i
  | interrupted (expired : i.expired e.now) (handed : e.handed ≠ some i.id) (failed : e.failed ≠ some i.id) :
    Moves s e i (i.interrupt e.now)
  | leased {name time : String} (claimable : i.claimable e.now) (handed : e.handed = some i.id)
    (failed : e.failed ≠ some i.id) : Moves s e i (i.lease name e.now time)
  | completed (leased : i.state = .leased) (handed : e.handed ≠ some i.id) (failed : e.failed ≠ some i.id) :
    Moves s e i (i.complete e.now)
  | failed {pid : ℕ} {f : Failing} (call : e.call = .write pid) (reads : s.fails pid = some f) (id : f.id = i.id)
    (leased : i.state = .leased) (handed : e.handed ≠ some i.id) (failed : e.failed = some i.id) :
    Moves s e i (i.fail f.existing.exhausted f.error f.now f.availableAt)

-- The sweep makes nothing claimable.
theorem claimable_sweep (h : (if i.expired now then i.interrupt now else i).claimable now) :
    i.claimable now ∧ i.expired now = false := by
  cases he : i.expired now
  case false => rw [he] at h; exact ⟨h, rfl⟩
  case true  => rw [he] at h; simp [Item.claimable, Item.interrupt] at h

theorem id_sweep : (if i.expired now then i.interrupt now else i).id = i.id := by
  split
  case isTrue  => rfl
  case isFalse => rfl

theorem moves_claim (hi : s.queue.get? id = some i) (hcall : e.call = .claim worker later)
    (hhanded : e.handed = s.handed e.now e.call) (hfailed : e.failed = s.failed e.call) :
    ∃ j, (s.claim worker later e.now).queue.get? id = some j ∧ Moves s e i j := by
  have hid : i.id = id := Table.key_of_get? hi
  have hfailed : e.failed = none := by rw [hfailed, hcall]; rfl
  have hhanded : e.handed = (nextItem (s.swept e.now).queue e.now).map (·.id) := by rw [hhanded, hcall]; rfl
  have hswept : (s.swept e.now).queue.get? id = some (if i.expired e.now then i.interrupt e.now else i) := by
    rw [State.swept, get?_sweepItems, hi]
    rfl
  have hsweep : e.handed ≠ some i.id → Moves s e i (if i.expired e.now then i.interrupt e.now else i) := by
    intro hh
    split
    case isTrue he => exact .interrupted he hh (by simp [hfailed])
    case isFalse   => exact .same hh (by simp [hfailed])
  unfold State.claim
  cases hnext : nextItem (s.swept e.now).queue e.now
  case none =>
    rw [hnext] at hhanded
    exact ⟨_, hswept, hsweep (by simp [hhanded])⟩
  case some next =>
    rw [hnext] at hhanded
    have hhanded : e.handed = some next.id := hhanded
    have ⟨hget, hclaimable⟩ := claimable_of_nextItem hnext
    refine ⟨_, (get?_leaseItem (b := id)).trans (congrArg _ hswept), ?_⟩
    simp only [id_sweep]
    by_cases hn : next.id = id
    case neg =>
      have hne : ¬(decide (i.id = next.id) && (if i.expired e.now then i.interrupt e.now else i).claimable e.now) := by
        simp [hid, Ne.symm hn]
      rw [if_neg hne]
      exact hsweep (by simpa [hhanded, hid] using hn)
    case pos =>
      rw [hn, hswept] at hget
      have hitem : (if i.expired e.now then i.interrupt e.now else i) = next := Option.some.inj hget
      rw [← hitem] at hclaimable
      have ⟨hc, he⟩ := claimable_sweep hclaimable
      simp only [he, hid, hn, Bool.false_eq_true, if_false, decide_true, hc, Bool.and_self, if_true]
      exact .leased hc (by rw [hhanded, hn, hid]) (by simp [hfailed])

-- What becomes of an item in a step
theorem moves_of_step (hs : system.step s e t) (hi : s.queue.get? id = some i) :
    ∃ j, t.queue.get? id = some j ∧ Moves s e i j := by
  obtain ⟨_, hhanded, hfailed, t', hrun, ht⟩ := hs
  have hid : i.id = id := Table.key_of_get? hi
  subst ht
  have hsame : e.handed = none → e.failed = none → t'.queue = s.queue →
      ∃ j, t'.queue.get? id = some j ∧ Moves s e i j := by
    intro hh hf hq
    exact ⟨i, by rw [hq, hi], .same (by simp [hh]) (by simp [hf])⟩
  cases hcall : e.call
  all_goals rw [hcall] at hrun
  case claim worker later =>
    cases hrun
    exact moves_claim hi hcall hhanded hfailed
  all_goals have hh : e.handed = none := by rw [hhanded, hcall]; rfl
  case write pid =>
    cases hrun
    cases hf : s.fails pid
    case none =>
      refine hsame hh (by rw [hfailed, hcall]; simp [State.failed, hf]) ?_
      simp [State.write, hf]
    case some f =>
      have hget : (s.write pid).queue.get? id =
          (s.queue.get? id).map fun i => if i.id = f.id && i.state = .leased then
            i.fail f.existing.exhausted f.error f.now f.availableAt else i := by
        simp only [State.write, hf]
        exact get?_failItem
      refine ⟨_, hget.trans (by rw [hi]; rfl), ?_⟩
      simp only
      by_cases hm : i.id = f.id ∧ i.state = .leased
      case pos =>
        rw [if_pos (by simp [hm])]
        have hfid : f.id = id := hm.left.symm.trans hid
        refine .failed hcall hf hm.left.symm hm.right (by simp [hh]) ?_
        rw [hfailed, hcall]
        simp [State.failed, hf, hfid, hi, hm.right]
      case neg =>
        rw [if_neg (by simpa using hm)]
        refine .same (by simp [hh]) ?_
        rw [hfailed, hcall]
        intro hfid
        simp only [State.failed, hf, Option.bind_some, Option.map_eq_some_iff, Option.filter_eq_some_iff] at hfid
        obtain ⟨c, ⟨hc, hstate⟩, hcid⟩ := hfid
        have hcf : c.id = f.id := Table.key_of_get? hc
        have hfi : f.id = id := hcf.symm.trans (hcid.trans hid)
        rw [hfi, hi] at hc
        cases hc
        exact hm ⟨hcf, of_decide_eq_true hstate⟩
  all_goals have hf : e.failed = none := by rw [hfailed, hcall]; rfl
  case add a =>
    obtain ⟨queue, hinsert, ht⟩ := Option.map_eq_some_iff.mp hrun
    subst ht
    refine ⟨i, ?_, .same (by simp [hh]) (by simp [hf])⟩
    rw [Table.get?_insert hinsert, if_neg, hi]
    intro ha
    have hnone := Table.get?_none_of_insert hinsert
    rw [ha, hi] at hnone
    cases hnone
  case complete id' =>
    cases hrun
    refine ⟨_, get?_completeItem.trans (by rw [hi]; rfl), ?_⟩
    simp only
    split
    case isTrue hm =>
      have hl : i.state = .leased := of_decide_eq_true (Bool.and_eq_true_iff.mp hm).right
      exact .completed hl (by simp [hh]) (by simp [hf])
    case isFalse => exact .same (by simp [hh]) (by simp [hf])
  case read    => cases hrun; exact hsame hh hf rfl
  case crash   => cases hrun; exact hsame hh hf rfl
  case execute => cases hrun; exact hsame hh hf rfl

-- An item that is there after a step but not before it was added.
theorem made_of_step (hs : system.step s e t) (hn : s.queue.get? id = none) : e.handed ≠ some id ∧
    ∀ j, t.queue.get? id = some j → ∃ a : Added, j = a.item e.now := by
  obtain ⟨_, hhanded, _, t', hrun, ht⟩ := hs
  subst ht
  have hkeep : ∀ {f : Item → Item}, t'.queue.get? id = (s.queue.get? id).map f →
      ∀ j, t'.queue.get? id = some j → ∃ a : Added, j = a.item e.now := by
    intro f hq j hj
    rw [hq, hn] at hj
    cases hj
  cases hcall : e.call
  all_goals rw [hcall] at hrun hhanded
  case claim name time =>
    cases hrun
    have hswept : (s.swept e.now).queue.get? id = none := get?_sweepItems.trans (by rw [hn]; rfl)
    have hhanded : e.handed = (nextItem (s.swept e.now).queue e.now).map (·.id) := hhanded
    cases hnext : nextItem (s.swept e.now).queue e.now
    case none =>
      rw [hnext] at hhanded
      refine ⟨by simp [hhanded], fun j hj => ?_⟩
      simp only [State.claim, hnext] at hj
      cases hswept.symm.trans hj
    case some next =>
      rw [hnext] at hhanded
      have hget := (claimable_of_nextItem hnext).left
      refine ⟨fun hh => ?_, fun j hj => ?_⟩
      case refine_1 =>
        cases hhanded.symm.trans hh
        cases hswept.symm.trans hget
      case refine_2 =>
        simp only [State.claim, hnext] at hj
        rw [get?_leaseItem, hswept] at hj
        cases hj
  all_goals refine ⟨by rw [hhanded]; exact fun h => (by cases h), ?_⟩
  case add a =>
    obtain ⟨queue, hinsert, ht⟩ := Option.map_eq_some_iff.mp hrun
    subst ht
    intro j hj
    have hj := (Table.get?_insert hinsert).symm.trans hj
    split at hj
    case isTrue  => cases hj; exact ⟨a, rfl⟩
    case isFalse => cases hn.symm.trans hj
  case complete => cases hrun; exact hkeep get?_completeItem
  case write pid =>
    cases hrun
    cases hf : s.fails pid
    case none   => exact hkeep ((congrArg (Table.get? · id) (by simp [State.write, hf])).trans Option.map_id_apply.symm)
    case some f => exact hkeep (by simp only [State.write, hf]; exact get?_failItem)
  case read    => cases hrun; exact hkeep Option.map_id_apply.symm
  case crash   => cases hrun; exact hkeep Option.map_id_apply.symm
  case execute => cases hrun; exact hkeep Option.map_id_apply.symm

-- A failure that puts an item back, since it has read that attempts are left, finds the lease not expired and
-- attempts left.
def Orderly (s : State) (e : Event) : Prop :=
  ∀ pid f i, e.call = .write pid → s.fails pid = some f → s.queue.get? f.id = some i → i.state = .leased →
    f.existing.exhausted = false → i.attemptCount < i.maxAttempts ∧ ∀ lease ∈ i.leaseExpiresAt, e.now < lease

structure ItemOk (i : Item) : Prop where
  attempts : i.attemptCount ≤ i.maxAttempts
  waiting  : i.state = .queued ∨ i.state = .retry → i.attemptCount < i.maxAttempts

-- The item was claimed with this lease, and its failure has not been recorded, or it is final.
def Held (lease : String) (i : Item) : Prop :=
  (i.state = .leased ∧ i.leaseExpiresAt = some lease) ∨ i.state = .completed ∨ i.state = .failed

theorem not_claimable_of_held {lease : String} (h : Held lease i) : i.claimable now = false := by
  rcases h with ⟨hs, _⟩ | hs | hs
  all_goals simp [Item.claimable, hs]

theorem itemOk_moves (hok : Orderly s e) (hi : s.queue.get? i.id = some i) (h : ItemOk i) (hm : Moves s e i j) :
    ItemOk j := by
  cases hm
  case same        => exact h
  case interrupted => exact ⟨h.attempts, fun hs => (by cases hs <;> contradiction)⟩
  case completed   => exact ⟨h.attempts, fun hs => (by cases hs <;> contradiction)⟩
  case leased hc _ _ => exact ⟨(claimable_iff.mp hc).left, fun hs => (by cases hs <;> contradiction)⟩
  case failed pid f hcall hf hid hl _ _ =>
    refine ⟨h.attempts, fun hs => ?_⟩
    cases he : f.existing.exhausted
    case true  => rw [he] at hs; cases hs <;> contradiction
    case false => exact (hok pid f i hcall hf (hid ▸ hi) hl he).left

theorem held_moves {lease : String} (hok : Orderly s e) (hi : s.queue.get? i.id = some i) (h : Held lease i)
    (hm : Moves s e i j) : e.handed ≠ some i.id ∧ (Held lease j ∨ e.failed = some i.id ∧ e.now < lease) := by
  cases hm
  case same hh _          => exact ⟨hh, .inl h⟩
  case interrupted _ hh _ => exact ⟨hh, .inl (.inr (.inr rfl))⟩
  case completed _ hh _   => exact ⟨hh, .inl (.inr (.inl rfl))⟩
  case leased hc _ _ =>
    rw [not_claimable_of_held h] at hc
    cases hc
  case failed pid f hcall hf hid hl hh hfailed =>
    refine ⟨hh, ?_⟩
    have hlease : i.leaseExpiresAt = some lease := by
      rcases h with ⟨_, hlease⟩ | hs | hs
      case inl => exact hlease
      all_goals rw [hl] at hs; cases hs
    cases he : f.existing.exhausted
    case true  => exact .inl (.inr (.inr rfl))
    case false => exact .inr ⟨hfailed, (hok pid f i hcall hf (hid ▸ hi) hl he).right lease hlease⟩

-- Before an item is handed out again, its failure was recorded before its lease expired.
theorem failed_before {lease : String} {es₁ es₂ : List Event} (r : (system.restrict Orderly).Run s es u)
    (hi : s.queue.get? id = some i) (h : Held lease i) (hes : es = es₁ ++ e :: es₂) (hh : e.handed = some id) :
    ∃ f ∈ es₁, f.failed = some id ∧ f.now < lease := by
  induction r generalizing es₁ i
  case refl => simp at hes
  case trans f es hstep _ hrest =>
    have hid : i.id = id := Table.key_of_get? hi
    obtain ⟨j, hj, hm⟩ := moves_of_step hstep.right hi
    have ⟨hnot, hnext⟩ := held_moves hstep.left (hid ▸ hi) h hm
    cases es₁
    case nil =>
      cases hes
      exact absurd (hid ▸ hh) hnot
    case cons f' es₁ =>
      cases hes
      cases hnext
      case inr hf => exact ⟨f, List.mem_cons_self, hid ▸ hf.left, hf.right⟩
      case inl hheld =>
        obtain ⟨f', hf', hfailed⟩ := hrest hj hheld rfl
        exact ⟨f', List.mem_cons_of_mem _ hf', hfailed⟩

theorem clock_le (r : (system.restrict Orderly).Run s es u) : ∀ e ∈ es, s.clock ≤ e.now := by
  induction r
  case refl => simp
  case trans e es hstep _ hi =>
    obtain ⟨hclock, _, _, t', _, ht⟩ := hstep.right
    intro e' he'
    cases List.mem_cons.mp he'
    case inl he' => exact he' ▸ hclock
    case inr he' =>
      have hrest := hi e' he'
      rw [ht] at hrest
      exact hclock.trans hrest

-- How often an item was handed out
def claims (es : List Event) (id : String) : ℕ :=
  es.countP (·.handed = some id)

theorem claims_concat : claims (es ++ [e]) id = claims es id + if e.handed = some id then 1 else 0 := by
  simp [claims, List.countP_append, List.countP_cons]

-- Every claim counts an attempt.
def Counted (es : List Event) (s : State) : Prop :=
  ∀ id, claims es id = ((s.queue.get? id).map (·.attemptCount)).getD 0

theorem counted_step (h : Counted es s) (hs : system.step s e t) : Counted (es ++ [e]) t := by
  intro id
  rw [claims_concat, h id]
  cases hi : s.queue.get? id
  case none =>
    have ⟨hh, hmade⟩ := made_of_step hs hi
    rw [if_neg hh]
    cases hj : t.queue.get? id
    case none   => rfl
    case some j =>
      obtain ⟨a, hj⟩ := hmade j hj
      rw [hj]
      rfl
  case some i =>
    have hid : i.id = id := Table.key_of_get? hi
    obtain ⟨j, hj, hm⟩ := moves_of_step hs hi
    rw [hj]
    subst hid
    cases hm
    case leased _ hh _ => simp [hh, Item.lease]
    case same hh _ => simp [hh]
    case interrupted _ hh _ => simp [hh, Item.interrupt]
    case completed _ hh _ => simp [hh, Item.complete]
    case failed hh _ => simp [hh, Item.fail]

theorem items_reachable (h₀ : system.init t) (r : (system.restrict Orderly).Run t es s) :
    ∀ id i, s.queue.get? id = some i → ItemOk i := by
  apply r.preserves (I := fun s => ∀ id i, s.queue.get? id = some i → ItemOk i)
  case h =>
    intro id i hi
    rw [h₀.left] at hi
    cases hi
  case hI =>
    intro s e t h hs id j hj
    cases hi : s.queue.get? id
    case none =>
      obtain ⟨a, hj⟩ := (made_of_step hs.right hi).right j hj
      have hpos : 0 < attemptsOf a.maxAttempts := attemptsOf_pos
      rw [hj]
      exact ⟨hpos.le, fun _ => hpos⟩
    case some i =>
      have hid : i.id = id := Table.key_of_get? hi
      obtain ⟨j', hj', hm⟩ := moves_of_step hs.right hi
      cases hj'.symm.trans hj
      exact itemOk_moves hs.left (hid ▸ hi) (h id i hi) hm

end Neighbor.WakeQueue

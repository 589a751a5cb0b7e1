import V8AgentOs.Python.Json

-- How a `dict` is extended. A member that is replaced keeps its place.
namespace Python.Dict

variable {d e : Dict} {key k : String} {value v : Json}

-- `{**d, **e}`
def merge (d e : Dict) : Dict :=
  d.map (fun m => (m.1, (e.lookup m.1).getD m.2)) ++ e.filter fun m => !d.has m.1

-- `{**d, key: value}`, which is also what `d[key] = value` makes of `d`
def set (d : Dict) (key : String) (value : Json) : Dict :=
  d.merge [(key, value)]

-- What `d.pop(key)` leaves
def without (d : Dict) (key : String) : Dict :=
  d.filter (·.1 ≠ key)

theorem lookup_cons {m : String × Json} :
    List.lookup k (m :: d) = if k = m.1 then some m.2 else d.lookup k := by
  cases m
  case mk x v =>
    by_cases hk : k = x
    case pos => simp [hk]
    case neg => simp [List.lookup_cons, hk, beq_eq_false_iff_ne.mpr hk]

theorem lookup_filter {p : String → Bool} :
    (List.filter (fun m => p m.1) e).lookup k = if p k then e.lookup k else none := by
  induction e
  case nil => simp
  case cons m e hi =>
    by_cases hk : k = m.1
    case pos =>
      subst hk
      cases hp : p m.1
      case false => simp [hi, hp]
      case true  => simp [lookup_cons, hp]
    case neg =>
      cases hp : p m.1
      case false => simp [hp, hi, lookup_cons, hk]
      case true  => simp [hp, hi, lookup_cons, hk]

theorem lookup_map {f : String → Json → Json} :
    (List.map (fun m => (m.1, f m.1 m.2)) d).lookup k = (d.lookup k).map (f k) := by
  induction d
  case nil => rfl
  case cons m d hi =>
    by_cases hk : k = m.1
    case pos => simp [lookup_cons, hk]
    case neg => simp [lookup_cons, hk, hi]

theorem lookup_append : List.lookup k (d ++ e) = (d.lookup k).or (e.lookup k) := by
  induction d
  case nil => simp
  case cons m d hi =>
    by_cases hk : k = m.1
    case pos => simp [lookup_cons, hk]
    case neg => simp [lookup_cons, hk, hi]

-- The members of the second dictionary win.
theorem lookup_merge : (d.merge e).lookup k = (e.lookup k).or (d.lookup k) := by
  unfold merge
  rw [lookup_append, lookup_map (f := fun k v => (e.lookup k).getD v), lookup_filter (p := fun k => !d.has k)]
  cases hd : d.lookup k
  case none   => simp [has, hd]
  case some v =>
    cases e.lookup k
    case none => simp [has, hd]
    case some => simp [has, hd]

theorem lookup_set_self : (d.set key value).lookup key = some value := by
  simp [set, lookup_merge]

theorem lookup_set_of_ne (h : k ≠ key) : (d.set key value).lookup k = d.lookup k := by
  simp [set, lookup_merge, lookup_cons, h]

theorem get_set_self {default : Json} : (d.set key value).get key default = value := by
  simp [get, lookup_set_self]

theorem lookup_without : (d.without key).lookup k = if k = key then none else d.lookup k := by
  unfold without
  rw [lookup_filter (p := fun k => k ≠ key)]
  by_cases hk : k = key
  case pos => simp [hk]
  case neg => simp [hk]

end Python.Dict

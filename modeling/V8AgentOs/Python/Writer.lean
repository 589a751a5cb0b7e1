import V8AgentOs.Python.Json

-- The texts that `json.dumps` writes with `ensure_ascii=False`, for the separators in use
namespace Python.Json

-- `separators` and `sort_keys`
structure Style where
  item   : List Char
  key    : List Char
  sorted : Bool

-- `json.dumps(value, ensure_ascii=False)`
def Style.plain : Style :=
  ⟨", ".toList, ": ".toList, false⟩

-- `json.dumps(value, ensure_ascii=False, sort_keys=True)`
def Style.sorting : Style :=
  ⟨", ".toList, ": ".toList, true⟩

-- `json.dumps(value, ensure_ascii=False, separators=(",", ":"))`
def Style.compact : Style :=
  ⟨[','], [':'], false⟩

variable (style : Style)

mutual

def write : Json → List Char
  | null         => "null".toList
  | bool b       => if b then "true".toList else "false".toList
  | int n        => intText n
  | float s d e  => floatText s d e
  | str s        => quoted s
  | list items   => '[' :: style.item.intercalate (writeItems items) ++ [']']
  | dict members =>
    let written := writeMembers members
    '{' :: style.item.intercalate ((if style.sorted then sortKeys written else written).map
      fun m => quoted m.1 ++ style.key ++ m.2) ++ ['}']

def writeItems : List Json → List (List Char)
  | []      => []
  | x :: xs => write x :: writeItems xs

def writeMembers : Dict → List (String × List Char)
  | []           => []
  | (k, x) :: xs => (k, write x) :: writeMembers xs

end

example : (dict [("b", list [int 1, null]), ("a", str "é")]).write .plain =
    "\x7b\"b\": [1, null], \"a\": \"é\"\x7d".toList := by decide +kernel

end Python.Json

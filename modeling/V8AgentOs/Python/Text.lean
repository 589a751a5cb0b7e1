import V8AgentOs.Python.Json

-- Texts of JSON values.
namespace Python

-- What `str` takes from Unicode and from the other types: `repr` of a value that is not a text, and `str.lower`,
-- which changes an ASCII text letter by letter.
structure Text where
  repr  : Json → String
  lower : String → String
  ascii : ∀ s : String, s.toList.all (·.toNat < 128) → lower s = String.ofList (s.toList.map Char.toLower)

namespace Text

variable (text : Text)

-- `str(value)`
def str : Json → String
  | .str s => s
  | v      => text.repr v

-- `str(value or "")`
def orEmpty (v : Json) : String :=
  if v.truthy then text.str v else ""

-- `str(value or "").strip()`
def stripped (v : Json) : String :=
  strip (text.orEmpty v)

-- `str(value or "").strip().lower()`
def lowered (v : Json) : String :=
  text.lower (text.stripped v)

end Text

-- A text knowing ASCII only
def asciiText : Text where
  repr _  := "?"
  lower s := String.ofList (s.toList.map Char.toLower)
  ascii _ _ := rfl

end Python

import V8AgentOs.Python.Text

-- Numbers out of JSON values.
namespace Python

-- What `float(value)` does: it gives a finite number or another one, or it raises.
inductive FloatOf
  | finite (negative : Bool) (digits : ℕ) (exponent : ℤ)
  | notFinite
  -- `TypeError` or `ValueError`
  | invalid
  | overflow

-- `float(value)`, and `int(value)` where it does not raise
structure Numbers where
  float : Json → FloatOf
  int   : Json → Option ℤ

-- `a < b` of two numbers
def less (a b : Json) : Bool :=
  match a.number?, b.number? with
  | some x, some y =>
    let e := min x.2 y.2
    x.1 * 10 ^ (x.2 - e).toNat < y.1 * 10 ^ (y.2 - e).toNat
  | _, _ => false

-- `max(a, b)` and `min(a, b)`, which keep the first of two equal numbers
def maxOf (a b : Json) : Json :=
  if less a b then b else a

def minOf (a b : Json) : Json :=
  if less b a then b else a

-- `value or default`
def orElse (v default : Json) : Json :=
  if v.truthy then v else default

-- `default if value is None or value == "" else value`
def given (v default : Json) : Json :=
  match v with
  | .null   => default
  | .str "" => default
  | v       => v

example : maxOf (.int 180) (minOf (.float false 72 1) (.int 720)) = .float false 72 1 := rfl

end Python

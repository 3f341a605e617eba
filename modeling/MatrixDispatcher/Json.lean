import MatrixDispatcher.Text

/-!
# JSON values

What `json.loads` and the Matrix client hand to the dispatcher. Numbers carry no value here, since
the dispatcher never reads one. An object is the list of its members; of two members with one
key, a Python `dict` keeps the later one.

* `Json` — the values.
* `Loaded` — what becomes of a text in `json.loads`.
-/

namespace MatrixDispatcher

/-- A JSON value. -/
inductive Json where
  | null
  | bool (b : Bool)
  | number
  | str (s : Str)
  | arr (elems : List Json)
  | obj (members : List (Str × Json))

namespace Json

/-- `dict.get(key)` on the members of an object. -/
def lookup (key : Str) (members : List (Str × Json)) : Option Json :=
  (members.reverse.find? fun m => m.1 == key).map Prod.snd

/-- `isinstance(v, dict)`, with the members. -/
def asObj : Json → Option (List (Str × Json))
  | obj members => some members
  | _ => none

/-- `isinstance(v, str)`, with the string. -/
def asStr : Json → Option Str
  | str s => some s
  | _ => none

end Json

/-- How `json.loads` ends on a text. -/
inductive Loaded where
  | value (v : Json)
  | jsonDecodeError
  /-- A `ValueError` that is no `JSONDecodeError`: an integer of more than 4300 digits. -/
  | valueError
  /-- `RecursionError`: arrays or objects that are nested too deeply. -/
  | recursionError

end MatrixDispatcher

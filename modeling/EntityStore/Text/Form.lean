/-!
# Forms of values in messages

How the values inside a message are laid out: records with named fields, lists, sets, and values
that may be absent.  Each function takes the finished texts of the parts.
-/

namespace EntityStore.Text

/-- `Name { a: x, b: y }` -/
def record (name : String) (fields : List (String × String)) : String :=
  name ++ " \x7b " ++ ", ".intercalate (fields.map fun f => f.1 ++ ": " ++ f.2) ++ " \x7d"

/-- `Name { a: x, .. }`, for a record that has more than it shows. -/
def openRecord (name : String) (fields : List (String × String)) : String :=
  name ++ " \x7b " ++ ", ".intercalate (fields.map fun f => f.1 ++ ": " ++ f.2) ++ ", .. \x7d"

/-- `Name(x)` -/
def wrapped (name : String) (value : String) : String := name ++ "(" ++ value ++ ")"

/-- `[x, y]` -/
def list (items : List String) : String := "[" ++ ", ".intercalate items ++ "]"

/-- `{x, y}` -/
def set (items : List String) : String := "\x7b" ++ ", ".intercalate items ++ "\x7d"

/-- `Some(x)` for a value that is there, `None` for one that is absent. -/
def optional {α : Type} (text : α → String) : Option α → String
  | some a => wrapped "Some" (text a)
  | none => "None"

/-- `true` or `false`. -/
def truth (b : Bool) : String := if b then "true" else "false"

/-- The report of a failed comparison, with an explanation if there is one. -/
def failedComparison (relation : String) (explanation : Option String) (left right : String) :
    String :=
  "assertion `left " ++ relation ++ " right` failed" ++
    (explanation.elim "" fun e => ": " ++ e) ++
    "\n  left: " ++ left ++ "\n right: " ++ right

/-- The report of a failed condition, which quotes the condition. -/
def failedCondition (condition : String) : String := "assertion failed: " ++ condition

end EntityStore.Text

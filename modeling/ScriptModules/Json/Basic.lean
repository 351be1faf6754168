/-!
# JSON values

A number is either an integer or a float; the two are told apart, since only the first is written
without a point. The fields of an object stand in the order of their names, each name once, when
the object is built by `putField`.
-/

namespace ScriptModules

/-- A JSON value. -/
inductive Json where
  | null
  | boolean (b : Bool)
  | integer (i : Int)
  | float (x : Float)
  | text (s : String)
  | list (items : List Json)
  | object (fields : List (String × Json))

instance : Inhabited Json := ⟨.null⟩

namespace Json

/-- Store a field in its place by name; a field of that name is replaced. -/
def putField (name : String) (value : Json) : List (String × Json) → List (String × Json)
  | [] => [(name, value)]
  | (n, v) :: rest =>
    if n = name then (name, value) :: rest
    else if name < n then (name, value) :: (n, v) :: rest
    else (n, v) :: putField name value rest

/-- The fields of a list stored one after the other, so that the last of a name wins. -/
def sortFields (fields : List (String × Json)) : List (String × Json) :=
  fields.foldl (fun sorted f => putField f.1 f.2 sorted) []

end Json

end ScriptModules

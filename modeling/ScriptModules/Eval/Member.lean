import ScriptModules.Value.Convert

/-!
# Members of values

Reading and writing `object[key]`. A key that is the text of an index reaches an item of a list or
a character of a text; the other members of these two are their length and their methods, made
anew on each reading. Writing an index at or behind the end of a list fills the gap, up to the
greatest length that a list may grow to. Writing to anything but a list or an object does nothing.
-/

namespace ScriptModules

/-- No list grows beyond this length. -/
def listLimit : Nat := 1048576

/-- The index that a text of decimal digits stands for, if 64 bits hold it. -/
def indexOfDigits? (cs : List Char) : Option Nat :=
  if cs.isEmpty || !cs.all Number.isDigit then none
  else
    let n := Number.digitsValue cs
    if n ≤ Number.largestWord then some n else none

/-- **The index that a key stands for:** decimal digits without a leading zero, perhaps behind a
plus sign. -/
def parseIndex (key : String) : Option Nat :=
  match key.toList with
  | [] => none
  | '0' :: _ :: _ => none
  | '+' :: cs => indexOfDigits? cs
  | cs => indexOfDigits? cs

/-- The method of a list with the given name. -/
def ListMethod.ofName? (name : String) : Option ListMethod :=
  [ListMethod.push, .join, .map, .forEach, .indexOf].find? fun m => m.name = name

/-- The method of a text with the given name. -/
def TextMethod.ofName? (name : String) : Option TextMethod :=
  [TextMethod.toUpperCase, .toLowerCase, .trim, .indexOf].find? fun m => m.name = name

namespace World

/-- The world with the flag of a watch raised, if the watch reacts to the key. -/
def notify (w : World) (watch : Option Watch) (key : String) : World :=
  match watch with
  | none => w
  | some ⟨none, f⟩ => { w with flags := w.flags.set f true }
  | some ⟨some k, f⟩ => if k = key then { w with flags := w.flags.set f true } else w

/-- The world with a property of an object written. -/
def setProperty (w : World) (o : Ref .object) (key : String) (v : Value) : World :=
  let w := w.notify (w.object o).watch key
  { w with objects := w.objects.update o fun x => { x with properties := x.properties.insert key v } }

/-- The world with the items of a list changed. -/
def changeItems (w : World) (l : Ref .list) (f : Array Value → Array Value) : World :=
  { w with lists := w.lists.update l f }

end World

/-- Items with one written at an index; a gap before it is filled. -/
def writeItem (items : Array Value) (i : Nat) (v : Value) : Array Value :=
  if i < items.size then items.setIfInBounds i v
  else (items ++ Array.replicate (i - items.size) Value.undefined).push v

namespace Run

/-- A member of a list. -/
def getListMember (l : Ref .list) (key : String) : Script Value := do
  let items ← read (·.items l)
  if key = "length" then return .number (Float.ofNat items.size)
  match parseIndex key with
  | some i => return (items[i]?).getD .undefined
  | none =>
    match ListMethod.ofName? key with
    | some m => return .function (← newFunction (.listMethod m l))
    | none => return .undefined

/-- A member of a text, whose positions count characters. -/
def getTextMember (s : String) (key : String) : Script Value := do
  if key = "length" then return .number (Float.ofNat s.length)
  match parseIndex key with
  | some i =>
    match s.toList[i]? with
    | some c => return .text (String.ofList [c])
    | none => return .undefined
  | none =>
    match TextMethod.ofName? key with
    | some m => return .function (← newFunction (.textMethod m s))
    | none => return .undefined

/-- **Read a member.** -/
def getMember (v : Value) (key : String) : Script Value :=
  match v with
  | .undefined =>
    fail (.wrongType ("Cannot read properties of undefined (reading '" ++ key ++ "')"))
  | .null => fail (.wrongType ("Cannot read properties of null (reading '" ++ key ++ "')"))
  | .object o => read fun w => ((w.object o).properties.get? key).getD .undefined
  | .list l => getListMember l key
  | .text s => getTextMember s key
  | .function f => if key = "name" then read fun w => .text (w.functionName f) else return .undefined
  | _ => return .undefined

/-- Write an item of a list. -/
def setListMember (l : Ref .list) (key : String) (v : Value) : Script Unit :=
  match parseIndex key with
  | none => return ()
  | some i => fun w =>
    if (w.items l).size ≤ i ∧ listLimit ≤ i then
      (.failed (.thrown s!"RangeError: Invalid array index {i}"), w)
    else (.done (), w.changeItems l fun items => writeItem items i v)

/-- **Write a member.** -/
def setMember (target : Value) (key : String) (v : Value) : Script Unit :=
  match target with
  | .undefined =>
    fail (.wrongType ("Cannot set properties of undefined (setting '" ++ key ++ "')"))
  | .null => fail (.wrongType ("Cannot set properties of null (setting '" ++ key ++ "')"))
  | .object o => change fun w => w.setProperty o key v
  | .list l => setListMember l key v
  | _ => return ()

end Run

end ScriptModules

import ScriptModules.Text.CaseTable

/-!
# Letter case

Full case mapping: one character may become several (`ß` becomes `SS`), and a capital sigma at
the end of a word becomes `ς` instead of `σ`. A sigma ends a word when, ignoring the characters
that the rule ignores, a letter with case stands before it and none after it.
-/

namespace ScriptModules.Text

/-- Whether `n` lies in one of the intervals. -/
def inRuns (runs : List (Nat × Nat)) (n : Nat) : Bool :=
  runs.any fun (lo, hi) => lo ≤ n && n ≤ hi

/-- The offset that a mapping gives to `n`. -/
def offset? (runs : List (Nat × Nat × Nat × Int)) (n : Nat) : Option Int :=
  (runs.find? fun (lo, hi, step, _) => lo ≤ n && n ≤ hi && (n - lo) % step == 0).map fun r => r.2.2.2

/-- The image of `c` under a case mapping. -/
def mapCase (runs : List (Nat × Nat × Nat × Int)) (exceptions : List (Nat × List Nat)) (c : Char) :
    List Char :=
  match offset? runs c.toNat with
  | some d => [Char.ofNat (Int.toNat (c.toNat + d))]
  | none =>
    match exceptions.find? (·.1 == c.toNat) with
    | some e => e.2.map Char.ofNat
    | none => [c]

/-- The upper-case form of a character. -/
def upperChar (c : Char) : List Char :=
  if c.toNat < 0x80 then [c.toUpper] else mapCase upperRuns upperExceptions c

/-- The lower-case form of a character that is no capital sigma. -/
def lowerChar (c : Char) : List Char :=
  if c.toNat < 0x80 then [c.toLower] else mapCase lowerRuns lowerExceptions c

/-- Whether the rule for a final sigma looks past `c`. -/
def isCaseIgnorable (c : Char) : Bool := inRuns caseIgnorableRuns c.toNat

/-- Whether `c` is a letter with case. -/
def isCased (c : Char) : Bool := inRuns casedRuns c.toNat

/-- Whether the next character that counts is a letter with case. -/
def startsCased (s : List Char) : Bool :=
  match s.dropWhile isCaseIgnorable with
  | c :: _ => isCased c
  | [] => false

/-- The lower-case form of `s`, where `before` tells whether a letter with case stands before it. -/
def lowerAfter (before : Bool) : List Char → List Char
  | [] => []
  | c :: rest =>
    let low := if c = 'Σ' then (if before && !startsCased rest then ['ς'] else ['σ']) else lowerChar c
    low ++ lowerAfter (if isCaseIgnorable c then before else isCased c) rest

/-- The upper-case form of a text. -/
def upper (s : String) : String := String.ofList (s.toList.flatMap upperChar)

/-- The lower-case form of a text. -/
def lower (s : String) : String := String.ofList (lowerAfter false s.toList)

end ScriptModules.Text

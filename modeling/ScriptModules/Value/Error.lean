/-!
# Errors

A script fails with a fault of its own (bad text, an unknown name, a wrong type, a thrown value)
or with an error of the host that a function of the host raised in it. A host error is a cause of
its own, or it wraps a script's fault with the name of the script. A host error that passed
through a script keeps its kind on the way out (`HostError.ofScript`).
-/

namespace ScriptModules

/-- Use of a context or an environment at the wrong time. -/
inductive Misuse where
  /-- There is no current context. -/
  | noContext
  /-- The environment is gone. -/
  | environmentGone
  /-- The execution context of this number is no longer active. -/
  | contextInactive (number : Nat)
  /-- Any other, in the host's words. -/
  | other (text : String)
deriving DecidableEq

/-- Why a configuration cannot be read. -/
inductive ConfigFault where
  /-- The text ended too early. -/
  | truncated
  /-- The text is no JSON. -/
  | malformed
  /-- The text is JSON but no configuration. -/
  | invalid (text : String)
deriving DecidableEq

/-- Why a file or folder cannot be used, in the words of the system. -/
inductive FileFault where
  /-- It is not there. -/
  | missing (text : String)
  | unreadable (text : String)
deriving DecidableEq

mutual

/-- A fault raised while a script is parsed or evaluated. -/
inductive ScriptError where
  | badSyntax (text : String)
  | reference (text : String)
  | wrongType (text : String)
  /-- A thrown value, as text. -/
  | thrown (text : String)
  /-- An error raised by a function of the host. -/
  | host (cause : HostError)

/-- An error of the module environment. -/
inductive HostError where
  | unsupportedDependency (name : String)
  | dependencyNotFound (name : String)
  | dependencyUnreadable (name : String)
  | invalidArguments (text : String)
  | scriptEvaluation (script : String) (cause : ScriptError)
  | lifecycleMisuse (what : Misuse)
  | alreadyCompleted
  | engineUnavailable (name : String)
  | unresolved (name : String)
  | config (fault : ConfigFault)
  | file (fault : FileFault)

end

deriving instance DecidableEq for ScriptError, HostError

/-- The text of a misuse. -/
def Misuse.message : Misuse → String
  | noContext => "No current context"
  | environmentGone => "Environment is gone"
  | contextInactive n => s!"Execution context {n} is no longer active"
  | other text => text

/-- The text of a fault of a configuration. -/
def ConfigFault.message : ConfigFault → String
  | truncated => "unexpected end of the text"
  | malformed => "malformed JSON"
  | invalid text => text

/-- The text of a fault of a file. -/
def FileFault.message : FileFault → String
  | missing text | unreadable text => text

mutual

/-- The text of a script error. -/
def ScriptError.message : ScriptError → String
  | .badSyntax text => "SyntaxError: " ++ text
  | .reference text => "ReferenceError: " ++ text
  | .wrongType text => "TypeError: " ++ text
  | .thrown text => "Uncaught " ++ text
  | .host cause => cause.message

/-- The text of a host error. -/
def HostError.message : HostError → String
  | .unsupportedDependency name =>
    "Only JS scripts are allowed as dependencies. Invalid dependency: " ++ name
  | .dependencyNotFound name => "Unable to load script dependency " ++ name ++ "."
  | .dependencyUnreadable name => "Unable to read script " ++ name ++ "."
  | .invalidArguments text => "Invalid arguments: " ++ text
  | .scriptEvaluation script cause => "Failed to evaluate script " ++ script ++ ": " ++ cause.message
  | .lifecycleMisuse what => what.message
  | .alreadyCompleted => "Async container was already completed"
  | .engineUnavailable name => "Failed to obtain a " ++ name ++ " script engine."
  | .unresolved name => "Result of " ++ name ++ " is still pending"
  | .config fault => "Invalid configuration: " ++ fault.message
  | .file fault => "I/O error: " ++ fault.message

end

/-- **The host error that a fault of `script` leaves behind.** An error of the host keeps its kind;
any other fault is wrapped once. -/
def HostError.ofScript (script : String) : ScriptError → HostError
  | .host cause => cause
  | fault => .scriptEvaluation script fault

end ScriptModules

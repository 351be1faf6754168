/-!
# Reserved names

Names under which the host tells a module where it is. None of them is an identifier, so no script
can read or write them.
-/

namespace ScriptModules.ReservedName

/-- The path of the script that is being evaluated. -/
def scriptFilename : String := "script.filename"

/-- The type that drives the render. -/
def resourceType : String := "request.resourceType"

/-- The path of the template script that started the render. -/
def renderScript : String := "render.script"

end ScriptModules.ReservedName

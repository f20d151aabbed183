import ShaderVariants.Expansion
import ShaderVariants.Settings

/-! The header of a program text: the version line and the macro definitions that go before the
expanded code. -/
namespace ShaderVariants

open Text

def defineLine (name value : String) : String :=
  if value.isEmpty then "#define " ++ name ++ "\n" else "#define " ++ name ++ " " ++ value ++ "\n"

def defineLines (defines : List (String × String)) : String :=
  String.join (defines.map fun d => defineLine d.1 d.2)

namespace Header

/-- Takes off a version line if nothing but blanks is before it; they go with it. -/
def splitVersion (body : List Char) : Option (List Char) × List Char :=
  let rest := trimStart body
  match dropLead? "#version".toList rest with
  | some _ => (some (rest.takeWhile (· != '\n')), (rest.dropWhile (· != '\n')).drop 1)
  | none => (none, body)

/-- The version of the settings, or else the authored one, without blanks at its end. -/
def versionLine (settings : Settings) (authored : Option (List Char)) : String :=
  match (settings.versionHeader.map String.toList).or authored with
  | some version => String.ofList (trimEnd version ++ ['\n'])
  | none => ""

/-- The macros of the stage, of the settings in the order of their names, of the active blocks in
the order of their bits, and of the context. -/
def defines (sc : Scope) (settings : Settings) : List (String × String) :=
  (if settings.defineStage then [(sc.stage.defineName, "")] else []) ++
  Keyed.ofList settings.globalDefines ++
  (if settings.defineActiveBlocks then
    (sc.library.registry.active sc.features).map fun b => (Block.macroName b.name, "")
  else []) ++
  sc.context.defines

/-- Puts the header before expanded code. -/
def assemble (sc : Scope) (settings : Settings) (body : String) : String :=
  let parts := splitVersion body.toList
  versionLine settings parts.1 ++ defineLines (defines sc settings) ++ String.ofList parts.2

end Header

/-- The text of one stage of a program. -/
def Scope.emit (sc : Scope) (settings : Settings) (t : Template) : Except Fault String :=
  (Expansion.expand sc t).map (Header.assemble sc settings)

end ShaderVariants

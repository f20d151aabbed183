import ShaderVariants.PerStage
import ShaderVariants.Section
import ShaderVariants.Template
import ShaderVariants.Property.Basic
import ShaderVariants.Keyed

/-! Shaders: what the sections of an authored text say. Stage sections give the code of a render
mode, `uniforms` and `init` declare properties, and other sections are kept as they are. -/
namespace ShaderVariants

structure Shader where
  modes : List (String × PerStage (Option Template))
  uniforms : List Property
  init : List Property
  extras : List (String × String)

namespace Shader

def empty : Shader := ⟨[], [], [], []⟩

/-- The render mode that stands in where a mode has no code for a stage. -/
def defaultMode : String := "default"

def code? (s : Shader) (mode : String) (stage : Stage) : Option Template :=
  (Assoc.get? mode s.modes).bind (·.get stage)

def stage? (s : Shader) (mode : String) (stage : Stage) : Option Template :=
  (s.code? mode stage).or (s.code? defaultMode stage)

def renderModes (s : Shader) : List String := s.modes.map (·.1)

def declared (s : Shader) : List Property := s.uniforms ++ s.init

def extra? (s : Shader) (key : String) : Option String := Assoc.get? key s.extras

def setCode (s : Shader) (mode : String) (stage : Stage) (t : Template) : Shader :=
  let code := (Assoc.get? mode s.modes).getD (.const none)
  { s with modes := Keyed.insert mode (code.set stage (some t)) s.modes }

variable [Json.Codec]

/-- Adds what one section says. -/
def addSection (resource : String) (sec : Section) (s : Shader) : Except Fault Shader :=
  match sec.extension.bind Stage.ofExtension? with
  | some stage =>
    (Template.read (resource ++ ":" ++ sec.key) sec.body (sec.line + 1)).map
      (s.setCode sec.name stage)
  | none =>
    if sec.key = "uniforms" then
      (Property.readAll resource sec.body (sec.line + 1)).map fun ps => { s with uniforms := ps }
    else if sec.key = "init" then
      (Property.readAll resource sec.body (sec.line + 1)).map fun ps => { s with init := ps }
    else .ok { s with extras := s.extras ++ [(sec.key, sec.body)] }

/-- Adds sections up to the first fault. No two sections may have the same header. -/
def addSections (resource : String) : (earlier sections : List Section) → Shader →
    Shader × Option Fault
  | _, [], s => (s, none)
  | earlier, sec :: rest, s =>
    match earlier.find? (·.hasHeaderOf sec) with
    | some first => (s, some (.malformed resource sec.line (.duplicateSection first.line)))
    | none => match addSection resource sec s with
      | .error e => (s, some e)
      | .ok s => addSections resource (sec :: earlier) rest s

/-- The shader of a text as far as it could be read, and the fault that stopped the reading. -/
def readPrefix (resource text : String) : Shader × Option Fault :=
  match Section.split resource 1 (Text.lines text.toList) with
  | .error e => (empty, some e)
  | .ok (_, sections) => addSections resource [] sections empty

def read (resource text : String) : Except Fault Shader :=
  match readPrefix resource text with
  | (s, none) => .ok s
  | (_, some e) => .error e

end Shader
end ShaderVariants

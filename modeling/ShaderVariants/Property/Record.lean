import ShaderVariants.Property.Basic
import ShaderVariants.Json.Record

/-! Properties as JSON records. Absent defaults and options are left out; a record is read with
its fields in any order, or as an array in the order of the fields. -/
namespace ShaderVariants.Property

open Json

variable [Codec]

def jsonText (p : Property) : String :=
  String.ofList <| objectText <|
    [("name", stringText p.name), ("uniform", stringText p.uniform),
      ("type", stringText p.type.name)] ++
    (p.default.map fun v => ("default", Codec.text v)).toList ++
    (p.options.map fun fields => ("options", Codec.text (.obj fields))).toList

def ofMembers? (name uniform type : Tree) (default options : Option Tree) : Option Property := do
  let name ← name.text?
  let uniform ← uniform.text?
  let type ← type.choice? UniformType.name UniformType.all
  let default ← optionalValue? default
  let options ← optionalFields? options
  some ⟨name, uniform, type, default, options⟩

def ofTree? : Tree → Option Property
  | .arr (name :: uniform :: type :: rest) =>
    if rest.length ≤ 2 then ofMembers? name uniform type rest[0]? rest[1]? else none
  | t => do
    let fields ← t.fields?
    let name ← member? "name" fields
    let uniform ← member? "uniform" fields
    let type ← member? "type" fields
    let default ← member? "default" fields
    let options ← member? "options" fields
    ofMembers? (← name) (← uniform) (← type) default options

def ofJson? (text : String) : Option Property := (Tree.read text.toList).bind ofTree?

end ShaderVariants.Property

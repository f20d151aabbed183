import ShaderVariants.Block.Basic
import ShaderVariants.Json.Record

/-! Exports as JSON records of a kind and a value. -/
namespace ShaderVariants.Export

open Json

def kindName : Export → String
  | block _ => "block"
  | define _ => "define"

def value : Export → String
  | block name => name
  | define value => value

def jsonText (e : Export) : String :=
  String.ofList (objectText [("kind", stringText e.kindName), ("value", stringText e.value)])

def ofMembers? (kind : String) (value : Tree) : Option Export :=
  if kind = "block" then value.text?.map block
  else if kind = "define" then value.text?.map define
  else none

/-- Reads a record with its members in any order, or an array of the two. Only in a record may the
kind be written as an object. -/
def ofTree? : Tree → Option Export
  | .arr [kind, value] => do ofMembers? (← kind.text?) value
  | t => do
    let fields ← t.fields?
    let kind ← member? "kind" fields
    let value ← member? "value" fields
    ofMembers? (← (← kind).choiceName?) (← value)

def ofJson? (text : String) : Option Export := (Tree.read text.toList).bind ofTree?

end ShaderVariants.Export

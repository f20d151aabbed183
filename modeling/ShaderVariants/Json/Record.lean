import ShaderVariants.Json.Codec

/-! Members of JSON records. -/
namespace ShaderVariants.Json

/-- The member under a key, unless the key is repeated. -/
def member? (key : String) (fields : List (String × Tree)) : Option (Option Tree) :=
  match fields.filter (·.1 = key) with
  | [] => some none
  | [p] => some (some p.2)
  | _ => none

/-- An absent or null member is none; another one has to be a value, inside one container. -/
def optionalValue? [Codec] : Option Tree → Option (Option Value)
  | none | some .null => some none
  | some t => (Codec.value? (depthLimit - 1) t).map some

def optionalFields? [Codec] (t : Option Tree) : Option (Option Fields) :=
  match optionalValue? t with
  | some (some (.obj fields)) => some (some fields)
  | some none => some none
  | _ => none

end ShaderVariants.Json

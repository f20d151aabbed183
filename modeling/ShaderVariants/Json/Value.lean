import ShaderVariants.Keyed

/-! JSON values. Integers keep their sign and up to 64 bits, other numbers are the bits of a
binary64 number, and the fields of an object are in ascending order of their keys. -/
namespace ShaderVariants.Json

inductive Value
  | null
  | bool (b : Bool)
  | int (n : Int)
  | float (bits : UInt64)
  | str (s : String)
  | arr (items : List Value)
  | obj (fields : List (String × Value))
  deriving Inhabited

abbrev Fields := List (String × Value)

end ShaderVariants.Json

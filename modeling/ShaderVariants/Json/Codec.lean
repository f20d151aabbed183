import ShaderVariants.Json.Tree
import ShaderVariants.Json.Printer

/-! Codecs of JSON values: which value a tree has, and the text that is written for a value. The
standard one takes numbers to the nearest and writes as few digits as lead back to them. -/
namespace ShaderVariants.Json

class Codec where
  /-- The value of a tree with at most `depth` containers inside each other. -/
  value? (depth : Nat) : Tree → Option Value
  text : Value → List Char

instance Codec.standard : Codec := ⟨Tree.value?, Value.text⟩

/-- Containers may be nested this deep. -/
def depthLimit : Nat := 127

def read [Codec] (text : List Char) : Option Value :=
  (Tree.read text).bind (Codec.value? depthLimit)

def readObject [Codec] (text : List Char) : Option Fields :=
  match read text with
  | some (.obj fields) => some fields
  | _ => none

end ShaderVariants.Json

/-! Pragmas: the lines of stage code that stand for a block, an included chunk or a snippet. -/
namespace ShaderVariants

namespace Pragma

inductive Kind
  | inclusion
  | block
  | snippet
  deriving DecidableEq, Inhabited

namespace Kind

def keyword : Kind → String
  | inclusion => "include"
  | block => "shaderblock"
  | snippet => "snippet"

def ofKeyword? (word : String) : Option Kind :=
  if word = "include" then some .inclusion
  else if word = "shaderblock" then some .block
  else if word = "snippet" then some .snippet
  else none

theorem ofKeyword?_keyword (k : Kind) : ofKeyword? k.keyword = some k := by
  cases k <;> decide

end Kind
end Pragma

/-- `key` is the role of a block pragma; when a block in the context claims it, that block takes
the place of `target`. `raw` is the whole line with its end. -/
structure Pragma where
  kind : Pragma.Kind
  target : String
  key : Option String
  line : Nat
  raw : String
  deriving DecidableEq

/-- What a pragma can stand for. -/
structure Reference where
  kind : Pragma.Kind
  name : String
  deriving DecidableEq

namespace Reference

def text (r : Reference) : String := r.kind.keyword ++ " \"" ++ r.name ++ "\""

def chainText (chain : List Reference) : String :=
  String.intercalate " -> " (chain.map text)

end Reference
end ShaderVariants

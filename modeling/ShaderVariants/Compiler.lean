import ShaderVariants.ProgramText

/-! The compiler of program texts. It belongs to the caller: a request is given to a function,
which answers with a program or says why the text was rejected. -/
namespace ShaderVariants

structure CompileRequest where
  label : String
  text : ProgramText
  deriving DecidableEq

/-- A compiled program, known by its handle, and the uniforms that it exposes. -/
structure Program where
  handle : Nat
  activeUniforms : List String
  deriving DecidableEq

/-- A link error has no stage. -/
structure Rejection where
  stage : Option Stage
  message : String
  deriving DecidableEq

def Rejection.text (r : Rejection) : String :=
  match r.stage with
  | some stage => stage.label ++ " stage: " ++ r.message
  | none => "link: " ++ r.message

abbrev Compiler := CompileRequest → Except Rejection Program

/-- A use of the compiler. -/
structure CompileCall where
  request : CompileRequest
  answer : Except Rejection Program

end ShaderVariants

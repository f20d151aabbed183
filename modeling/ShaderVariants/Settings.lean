/-! Settings of program generation and caching. -/
namespace ShaderVariants

structure Settings where
  /-- How many blocks a library can hold. -/
  maxBlocks : Nat := 256
  /-- The first line of every program text. -/
  versionHeader : Option String := none
  /-- Macros of every program text; a later value for a name takes the place of an earlier one. -/
  globalDefines : List (String × String) := []
  /-- Define a macro for the stage. -/
  defineStage : Bool := true
  /-- Define a macro for each active block. -/
  defineActiveBlocks : Bool := true
  /-- Keep the text of a program with its variant. -/
  keepProgramText : Bool := true
  /-- Compile equal program texts only once. -/
  shareIdentical : Bool := false
  /-- Refuse a context key that several active blocks export. -/
  strictContext : Bool := false
  /-- Report every program text. -/
  reportProgramText : Bool := false
  deriving DecidableEq

instance : Inhabited Settings := ⟨{}⟩

end ShaderVariants

import ShaderVariants.ProgramPool

/-! Notices: what the library reports while it works, besides its answers. -/
namespace ShaderVariants

inductive Level
  | debug
  | warn
  | error
  deriving DecidableEq

def Level.label : Level → String
  | debug => "DEBUG"
  | warn => "WARN"
  | error => "ERROR"

inductive Notice
  | featureIgnored (bit : Nat)
  | textIgnored (resource : String) (line : Nat)
  | sectionKept (resource key : String)
  | readFailed (fault : Fault)
  | blockRegistered (name : String) (bit : Nat)
  | sourceRegistered (name : String)
  | variantsReleased (source : String) (count : Nat)
  | libraryChanged (source : String)
  | building (source : String) (key : VariantKey)
  | conflictSettled (source : String) (conflict : Context.Conflict)
  | generationFailed (source : String) (key : VariantKey) (fault : Fault)
  | generated (source : String) (key : VariantKey) (text : ProgramText)
  | compileFailed (fault : Fault) (key : VariantKey) (text : ProgramText)
  | propertiesDiscarded (source : String) (key : VariantKey) (names : List String)
  | unknownUpdated (id : SourceId)
  | unknownRequested (id : SourceId)
  | allInvalidated (count : Nat)
  deriving DecidableEq

namespace Notice

def level : Notice → Level
  | featureIgnored .. | conflictSettled .. | propertiesDiscarded .. => .warn
  | unknownUpdated .. | unknownRequested .. => .warn
  | readFailed .. | generationFailed .. | compileFailed .. => .error
  | _ => .debug

def stagesText (t : ProgramText) : String :=
  "--- vertex ---\n" ++ t.vertex ++ "\n--- fragment ---\n" ++ t.fragment

/-- Slots are counted from one, and rounds by the odd numbers. -/
def idText (id : SourceId) : String :=
  "ShaderSourceId(" ++ toString (id.index + 1) ++ "v" ++ toString (2 * id.round + 1) ++ ")"

def text : Notice → String
  | featureIgnored bit =>
    "ignoring feature bit " ++ toString bit ++ " (limit " ++ toString FeatureSet.bitLimit ++ ")"
  | textIgnored resource line =>
    resource ++ ":" ++ toString line ++ ": ignoring text before the first section header"
  | sectionKept resource key => resource ++ ": keeping uninterpreted section \\" ++ key
  | readFailed fault => fault.message
  | blockRegistered name bit =>
    "Registered shader block \"" ++ name ++ "\" as bit " ++ toString bit
  | sourceRegistered name => "Registered shader source \"" ++ name ++ "\""
  | variantsReleased source count =>
    source ++ ": released " ++ toString count ++ " cached permutation(s)"
  | libraryChanged source => source ++ ": shader library content changed"
  | building source key => source ++ ": building permutation " ++ key.text
  | conflictSettled source c =>
    source ++ ": context key \"" ++ c.key ++ "\" exported by " ++ Text.quotedList c.providers ++
      "; using \"" ++ c.winner ++ "\""
  | generationFailed source key fault =>
    source ++ ": permutation " ++ key.text ++ " failed: " ++ fault.message
  | generated source key t =>
    "================= Generated " ++ source ++ " " ++ key.text ++ " =================\n" ++
      stagesText t
  | compileFailed fault key t => fault.message ++ " " ++ key.text ++ "\n" ++ stagesText t
  | propertiesDiscarded source key names =>
    source ++ ": " ++ key.text ++ " compiler discarded properties " ++ Text.quotedList names
  | unknownUpdated id => "update of unknown shader source " ++ idText id
  | unknownRequested id => "request for unknown shader source " ++ idText id
  | allInvalidated count =>
    "Invalidated all shader sources (" ++ toString count ++ " variants)"

/-- The notices of inserting bits into a feature set. -/
def ofBits (bits : List Nat) : List Notice :=
  (bits.filter (FeatureSet.bitLimit ≤ ·)).map .featureIgnored

end Notice

end ShaderVariants

import ShaderVariants.Catalog

/-! Workspaces: one library and the catalogs that share it. A run is a list of commands. -/
namespace ShaderVariants

structure Workspace where
  library : Library
  catalogs : List Catalog

/-- An edit of the library, or an operation of the catalog with the given index. -/
inductive Command
  | edit (e : Library.Edit)
  | add (catalog : Nat) (name code : String)
  | update (catalog : Nat) (id : SourceId) (code : String)
  | remove (catalog : Nat) (id : SourceId)
  | invalidate (catalog : Nat) (id : SourceId)
  | invalidateAll (catalog : Nat)
  | request (catalog : Nat) (id : SourceId) (mode : String) (features : FeatureSet)
      (compiler : Compiler)

inductive Reply
  | edited (result : Except Fault Unit)
  | added (result : Except Fault SourceId)
  | updated (known : Bool)
  | removed (source : Option Source)
  | released (count : Nat)
  | answered (lookup : Lookup)
  | noCatalog

namespace Workspace

/-- Empty catalogs over a library, one for each of the settings. -/
def new (library : Library) (settings : List Settings) : Workspace :=
  ⟨library, settings.map .new⟩

/-- The notices of a successful edit. -/
def editNotices (before : Library) : Library.Edit → List Notice
  | .registerBlock spec => [.blockRegistered spec.name before.blockCount]
  | _ => []

/-- Edits the library; an edit that fails leaves it as it is. -/
def edit (w : Workspace) (e : Library.Edit) : Outcome Workspace Reply :=
  match w.library.edit e with
  | .ok l => ⟨{ w with library := l }, .edited (.ok ()), none, editNotices w.library e⟩
  | .error f => .quiet w (.edited (.error f))

/-- Lets the catalog at an index do something. -/
def manage {α : Type} (w : Workspace) (i : Nat) (reply : α → Reply)
    (op : Catalog → Outcome Catalog α) : Outcome Workspace Reply :=
  match w.catalogs[i]? with
  | none => .quiet w .noCatalog
  | some c => (op c).map (fun c => { w with catalogs := w.catalogs.set i c }) reply

def step (w : Workspace) : Command → Outcome Workspace Reply
  | .edit e => w.edit e
  | .add i name code => w.manage i .added (·.add name code)
  | .update i id code => w.manage i .updated (·.update id code)
  | .remove i id => w.manage i .removed (·.remove id)
  | .invalidate i id => w.manage i .released (·.invalidate id)
  | .invalidateAll i => w.manage i .released (·.invalidateAll)
  | .request i id mode features compiler =>
    w.manage i .answered fun c => c.request compiler w.library id mode features

/-- The outcomes of commands that are given one after the other. -/
def trace (w : Workspace) : List Command → List (Outcome Workspace Reply)
  | [] => []
  | c :: rest => w.step c :: (w.step c).state.trace rest

/-- The workspace after some commands. -/
def run (w : Workspace) (commands : List Command) : Workspace :=
  commands.foldl (fun w c => (w.step c).state) w

end Workspace
end ShaderVariants

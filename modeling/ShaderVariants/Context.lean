import ShaderVariants.Registry

/-! The context of a program: what its active blocks export. Of several exports under one key
that of the highest priority wins, and among equal priorities that of the highest bit; a key
with several exporters is a conflict. -/
namespace ShaderVariants

namespace Context

structure Entry where
  value : Export
  provider : Block
  deriving DecidableEq

/-- Higher priority, or equal priority and higher bit. -/
def Entry.outranks (a b : Entry) : Bool :=
  b.provider.priority < a.provider.priority ||
    (a.provider.priority == b.provider.priority && b.provider.bit < a.provider.bit)

/-- The exporters of a key in the order of their bits, and the one that wins. -/
structure Conflict where
  key : String
  providers : List String
  winner : String
  deriving DecidableEq

end Context

/-- Entries and conflicts are in the order of their keys. -/
structure Context where
  entries : List (String × Context.Entry)
  conflicts : List Context.Conflict
  deriving DecidableEq

namespace Context

/-- All exports, block by block. -/
def offers (blocks : List Block) : List (String × Entry) :=
  blocks.flatMap fun b => b.exports.map fun e => (e.1, ⟨e.2, b⟩)

/-- Enters an offer unless the present entry outranks it. -/
def merge (entries : List (String × Entry)) (offer : String × Entry) : List (String × Entry) :=
  if (Assoc.get? offer.1 entries).any (·.outranks offer.2) then entries
  else Keyed.insert offer.1 offer.2 entries

def conflict? (offers : List (String × Entry)) (key : String) (entry : Entry) : Option Conflict :=
  let providers := (offers.filter (·.1 = key)).map (·.2.provider.name)
  if 1 < providers.length then some ⟨key, providers, entry.provider.name⟩ else none

def ofBlocks (blocks : List Block) : Context :=
  let offers := offers blocks
  let entries := offers.foldl merge []
  ⟨entries, entries.filterMap fun e => conflict? offers e.1 e.2⟩

/-- The context of the blocks that are active under the features. -/
def compute (registry : Registry) (features : FeatureSet) : Context :=
  ofBlocks (registry.active features)

def get? (c : Context) (key : String) : Option Entry := Assoc.get? key c.entries

/-- The block that a key stands for. -/
def block? (c : Context) (key : String) : Option String :=
  match c.get? key with
  | some ⟨.block name, _⟩ => some name
  | _ => none

/-- The macros with their values. -/
def defines (c : Context) : List (String × String) :=
  c.entries.filterMap fun e => match e.2.value with
    | .define value => some (e.1, value)
    | .block _ => none

def isEmpty (c : Context) : Bool := c.entries.isEmpty

end Context
end ShaderVariants

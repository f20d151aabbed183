import ShaderVariants.Source

/-! Catalogs: the sources of one rendering context, with a pool of programs and a fallback for
sources whose text cannot be read. -/
namespace ShaderVariants

/-- What a request is answered with. -/
inductive Lookup
  | ready (v : Variant)
  | fallback (v : Variant)
  | unavailable
  deriving DecidableEq

def Lookup.variant? : Lookup → Option Variant
  | ready v => some v
  | fallback v => some v
  | unavailable => none

/-- `retired` sums the counts of sources that were removed. -/
structure Catalog where
  settings : Settings
  sources : SlotTable Source
  names : List (String × SourceId)
  pool : ProgramPool
  fallback : Source
  retired : Stats

namespace Catalog

/-- A flat colour that cannot be overlooked. -/
def fallbackCode : String :=
  "\\default.vs\n" ++
  "in vec3 a_vertex;\n" ++
  "uniform mat4 u_model;\n" ++
  "uniform mat4 u_viewprojection;\n" ++
  "\n" ++
  "void main() \x7b\n" ++
  "\tgl_Position = u_viewprojection * u_model * vec4(a_vertex, 1.0);\n" ++
  "\x7d\n" ++
  "\n" ++
  "\\default.fs\n" ++
  "out vec4 FragColor;\n" ++
  "\n" ++
  "void main() \x7b\n" ++
  "\tFragColor = vec4(1.0, 0.0, 1.0, 1.0);\n" ++
  "\x7d\n"

def fallbackName : String := "__fallback"

def new (settings : Settings) : Catalog :=
  ⟨settings, .empty, [], .empty, .new none fallbackName fallbackCode, .zero⟩

def source? (c : Catalog) (id : SourceId) : Option Source := c.sources.get? id

def find? (c : Catalog) (name : String) : Option SourceId := Assoc.get? name c.names

def sourceCount (c : Catalog) : Nat := c.sources.size

/-- Counts over all sources that the catalog ever had. -/
def stats (c : Catalog) : Stats :=
  c.sources.items.foldl (fun st s => st.add s.cache.stats) c.retired

/-- Adds a source under a name that is free. Its text need not be readable. -/
def add (c : Catalog) (name code : String) : Outcome Catalog (Except Fault SourceId) :=
  match c.find? name with
  | some _ => .quiet c (.error (.duplicateName .source name))
  | none =>
    let id := c.sources.nextKey
    ⟨{ c with
        sources := c.sources.insert (.new (some id) name code)
        names := Assoc.set name id c.names },
      .ok id, none, Source.readNotices name code ++ [.sourceRegistered name]⟩

/-- Gives a source a new text; answers whether there is such a source. -/
def update (c : Catalog) (id : SourceId) (code : String) : Outcome Catalog Bool :=
  match c.source? id with
  | none => ⟨c, false, none, [.unknownUpdated id]⟩
  | some s => (s.setCode code).map
      (fun s => { c with sources := c.sources.set id s, pool := c.pool.evict (some id) })
      fun _ => true

def remove (c : Catalog) (id : SourceId) : Outcome Catalog (Option Source) :=
  match c.source? id with
  | none => .quiet c none
  | some s => .quiet
      { c with
        sources := c.sources.remove id
        names := Assoc.erase s.name c.names
        pool := c.pool.forget (some id)
        retired := c.retired.add s.cache.stats }
      (some s)

/-- Drops the variants of one source; answers how many. -/
def invalidate (c : Catalog) (id : SourceId) : Outcome Catalog Nat :=
  match c.source? id with
  | none => .quiet c 0
  | some s => s.invalidate.map
      (fun s => { c with sources := c.sources.set id s, pool := c.pool.evict (some id) })
      fun n => n

/-- Drops all variants, those of the fallback too; answers how many sources' variants. -/
def invalidateAll (c : Catalog) : Outcome Catalog Nat :=
  let outcomes := c.sources.items.map Source.invalidate
  let released := outcomes.foldl (fun n o => n + o.answer) 0
  ⟨{ c with
      sources := c.sources.map fun s => s.invalidate.state
      pool := c.pool.clear
      fallback := c.fallback.invalidate.state },
    released, none,
    c.fallback.invalidate.notices ++ outcomes.flatMap (·.notices) ++ [.allInvalidated released]⟩

/-- Requests the fallback program, which shares nothing. -/
def requestFallback (c : Catalog) (compiler : Compiler) (library : Library) :
    Outcome Catalog Lookup :=
  (Source.Pooled.request ⟨c.fallback, none⟩ ⟨compiler, library, c.settings⟩
    Shader.defaultMode .empty).map
    (fun p => { c with fallback := p.source })
    fun v => (v.map .fallback).getD .unavailable

/-- Requests the program of a source for a render mode and features. -/
def request (c : Catalog) (compiler : Compiler) (library : Library) (id : SourceId)
    (mode : String) (features : FeatureSet) : Outcome Catalog Lookup :=
  match c.source? id with
  | none => ⟨c, .unavailable, none, [.unknownRequested id]⟩
  | some s =>
    match s.parsed with
    | .error _ => c.requestFallback compiler library
    | .ok _ =>
      (Source.Pooled.request ⟨s, some c.pool⟩ ⟨compiler, library, c.settings⟩ mode features).map
        (fun p => { c with
          sources := c.sources.set id p.source
          pool := p.pool.getD c.pool })
        fun v => (v.map .ready).getD .unavailable

end Catalog
end ShaderVariants

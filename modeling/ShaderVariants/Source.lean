import ShaderVariants.Outcome

/-! Sources: an authored shader text with the variants that were built from it. Variants are
built when they are first asked for. A new text, an invalidation or a changed chunk of the
library drops them all; a rejected compilation blocks the source until then. -/
namespace ShaderVariants

/-- The notices of generating a text. -/
def Recipe.notices (r : Recipe) (library : Library) (settings : Settings) : List Notice :=
  (r.settledConflicts library settings).map (.conflictSettled r.resource)

/-- `version` counts how often the text was replaced, modulo `2 ^ 64`; `seenLibrary` has the library's
revision and content revision at the last request. -/
structure Source where
  owner : Owner
  name : String
  code : String
  version : UInt64
  parsed : Except Fault Shader
  hasError : Bool
  cache : VariantCache
  seenLibrary : Option (Nat × Nat)

namespace Source

def new (owner : Owner) (name code : String) : Source :=
  ⟨owner, name, code, 0, Shader.read name code, false, .empty, none⟩

def shader? (s : Source) : Option Shader :=
  match s.parsed with
  | .ok shader => some shader
  | .error _ => none

def fault? (s : Source) : Option Fault :=
  match s.parsed with
  | .ok _ => none
  | .error e => some e

/-- The properties of the `uniforms` section. -/
def uniforms (s : Source) : List Property := (s.shader?.map (·.uniforms)).getD []

/-- The numbers of the lines before the first header that are not blank. -/
def strayLines (n : Nat) : List (List Char) → List Nat
  | [] => []
  | line :: rest =>
    match Section.header? line, Text.trim line with
    | some _, _ => []
    | none, [] => strayLines (n+1) rest
    | none, _ => n :: strayLines (n+1) rest

/-- The notices of reading a text. -/
def readNotices (name code : String) : List Notice :=
  let reading := Shader.readPrefix name code
  (strayLines 1 (Text.lines code.toList)).map (.textIgnored name) ++
    reading.1.extras.map (fun e => .sectionKept name e.1) ++
    (reading.2.map .readFailed).toList

/-- Drops all variants and the error; answers how many variants there were. -/
def invalidate (s : Source) : Outcome Source Nat :=
  let released := s.cache.size
  ⟨{ s with hasError := false, cache := s.cache.clear }, released, none,
    if released = 0 then [] else [.variantsReleased s.name released]⟩

def setCode (s : Source) (code : String) : Outcome Source Nat :=
  (invalidate { s with
    code
    version := s.version + 1
    parsed := Shader.read s.name code }).after (readNotices s.name code)

def recipe (s : Source) (shader : Shader) (key : VariantKey) : Recipe :=
  ⟨s.name, shader, key.mode, key.features⟩

/-- The key of a request: features without a block do not count. -/
def key (library : Library) (mode : String) (features : FeatureSet) : VariantKey :=
  ⟨mode, features.masked library.blockCount⟩

/-- Generates a program text without building a variant. -/
def generate (s : Source) (library : Library) (settings : Settings) (mode : String)
    (features : FeatureSet) : Except Fault ProgramText :=
  match s.parsed with
  | .error e => .error e
  | .ok shader => (s.recipe shader (key library mode features)).generate library settings

def generateNotices (s : Source) (library : Library) (settings : Settings) (mode : String)
    (features : FeatureSet) : List Notice :=
  match s.parsed with
  | .error _ => []
  | .ok shader => (s.recipe shader (key library mode features)).notices library settings

/-- What a request needs besides the source and the key. -/
structure Environment where
  compiler : Compiler
  library : Library
  settings : Settings

/-- A source together with the pool that it may share programs through. Without a pool it shares
nothing. -/
structure Pooled where
  source : Source
  pool : Option ProgramPool

namespace Pooled

def mapSource (p : Pooled) (f : Source → Source) : Pooled := { p with source := f p.source }

/-- Takes notice of library edits since the last request: a changed chunk drops everything, new
names only drop the failures. -/
def sync (p : Pooled) (library : Library) : Outcome Pooled Unit :=
  let s := { p.source with seenLibrary := some (library.revision, library.contentRevision) }
  match p.source.seenLibrary with
  | none => .quiet { p with source := s } ()
  | some (revision, content) =>
    if content ≠ library.contentRevision then
      let pool := p.pool.map (·.evict s.owner)
      (s.invalidate.map (⟨·, pool⟩) fun _ => ()).after [.libraryChanged s.name]
    else if revision ≠ library.revision then
      .quiet { p with source := { s with cache := s.cache.clearFailed } } ()
    else .quiet { p with source := s } ()

def count (p : Pooled) (f : Stats → Stats) : Pooled :=
  p.mapSource fun s => { s with cache := s.cache.count f }

/-- Stores the variant of a program. -/
def store (p : Pooled) (settings : Settings) (shader : Shader) (key : VariantKey)
    (text : ProgramText) (program : Program) : Outcome Pooled (Option Variant) :=
  let s := p.source
  let discarded := Property.discarded shader.declared program.activeUniforms
  let v : Variant :=
    ⟨s.cache.built, key, program, s.version, ProgramText.digest text,
      if settings.keepProgramText then some text else none, discarded⟩
  ⟨{ p with source := { s with cache := s.cache.putReady v } }, some v, none,
    if discarded.isEmpty then [] else [.propertiesDiscarded s.name key discarded]⟩

/-- Puts a program that was just compiled into the pool. -/
def share (p : Pooled) (text : ProgramText) (program : Program) : Pooled :=
  { p with pool := p.pool.map fun pool =>
      pool.insert (ProgramText.digest text) p.source.owner program }

/-- Compiles a text. A rejection blocks the source. -/
def compile (p : Pooled) (env : Environment) (shader : Shader) (key : VariantKey)
    (text : ProgramText) : Outcome Pooled (Option Variant) :=
  let p := p.count .compile
  let s := p.source
  let request : CompileRequest := ⟨s.name ++ " " ++ key.text, text⟩
  let answer := env.compiler request
  let outcome := match answer with
    | .ok program =>
      (if env.settings.shareIdentical then p.share text program else p).store
        env.settings shader key text program
    | .error r =>
      let p := p.count .failure
      ⟨p.mapSource fun s => { s with hasError := true }, none, none,
        [.compileFailed (.rejected s.name r.stage r.message) key text]⟩
  { outcome with call := some ⟨request, answer⟩ }

/-- Takes a program from the pool if sharing is on and the pool has it, or else compiles. -/
def obtain (p : Pooled) (env : Environment) (shader : Shader) (key : VariantKey)
    (text : ProgramText) : Outcome Pooled (Option Variant) :=
  let found :=
    if env.settings.shareIdentical then
      p.pool.bind (·.acquire (ProgramText.digest text) p.source.owner)
    else none
  match found with
  | some (program, pool) =>
    let p := { p with pool := some pool }.count .poolHit
    p.store env.settings shader key text program
  | none => p.compile env shader key text

/-- Builds the variant of a key that has no slot. -/
def build (p : Pooled) (env : Environment) (shader : Shader) (key : VariantKey) :
    Outcome Pooled (Option Variant) :=
  let p := p.count .miss
  let s := p.source
  let recipe := s.recipe shader key
  let notices := .building s.name key :: recipe.notices env.library env.settings
  match recipe.generate env.library env.settings with
  | .error e =>
    let p := p.count .failure
    ⟨p.mapSource fun s => { s with cache := s.cache.putFailed key }, none, none,
      notices ++ [.generationFailed s.name key e]⟩
  | .ok text =>
    let report := if env.settings.reportProgramText then [.generated s.name key text] else []
    (p.obtain env shader key text).after (notices ++ report)

/-- Answers a request of a source that has taken notice of the library. -/
def answer (p : Pooled) (env : Environment) (mode : String) (features : FeatureSet) :
    Outcome Pooled (Option Variant) :=
  match p.source.hasError, p.source.parsed with
  | false, .ok shader =>
    let key := key env.library mode features
    let hit := p.count .hit
    match p.source.cache.get? key with
    | some (.ready v) => .quiet hit (some v)
    | some .failed => .quiet hit none
    | none => p.build env shader key
  | _, _ => .quiet p none

/-- The variant for a render mode and features, built if need be. There is none if the text
cannot be read, if the source is blocked, or if no text can be generated for the key. -/
def request (p : Pooled) (env : Environment) (mode : String) (features : FeatureSet) :
    Outcome Pooled (Option Variant) :=
  let synced := p.sync env.library
  (synced.state.answer env mode features).after synced.notices

end Pooled
end Source
end ShaderVariants

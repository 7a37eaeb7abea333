import SourceScan.Config.Basic
import SourceScan.FileTree.Basic
import SourceScan.Toml.Decode

/-!
# Configurations in files

Loading reads a file and never changes the tree. Saving makes the directories above the file if
they are missing, and then writes it. A directory is asked for its configuration with
`loadOrDefault`, where a missing file means the default; any other failure is passed on.

All of this works with any `Codec`. The program itself uses `Codec.standard`.
-/

namespace SourceScan

/-- **Why a configuration could not be loaded or saved.** -/
inductive ConfigError where
  | notFound (path : String)
  | io (cause : FileError)
  | parse (cause : Toml.ParseError)
  | serialize (text : String)
deriving DecidableEq, Inhabited

namespace ConfigError

/-- The message of the failure behind this one. A file that is not there has none behind it. -/
def cause? : ConfigError → Option String
  | notFound _ => none
  | io cause => some cause.message
  | parse cause => some cause.message
  | serialize text => some text

def message : ConfigError → String
  | notFound path => s!"Configuration file not found: {path}"
  | io cause => s!"IO error: {cause.message}"
  | parse cause => s!"Failed to parse configuration: {cause.message}"
  | serialize text => s!"Failed to serialize configuration: {text}"

end ConfigError

namespace Config

def fileName : String := "yatl.toml"

/-- What loading did. -/
structure Loaded where
  result : Except ConfigError Config
  log : List Log.Entry

end Config

namespace Codec

variable (k : Codec)

/-- **Reading a configuration from a text.** -/
def fromText (text : String) : Except ConfigError Config := (k.decode text).mapError .parse

/-- **Writing a configuration as a text.** -/
def toText (c : Config) : Except ConfigError String := (k.encode c).mapError .serialize

/-- The configuration in a file, without a word in the log. -/
def read (t : FileTree) (p : FilePath) : Except ConfigError Config :=
  if t.hasPath p then do
    let text ← (t.readText p).mapError .io
    k.fromText text
  else .error (.notFound p.text)

/-- **Loading a configuration file.** Only a success is logged. -/
def load (t : FileTree) (p : FilePath) : Config.Loaded :=
  match k.read t p with
  | .ok c => ⟨.ok c, [⟨.debug, s!"loaded configuration from {p}"⟩]⟩
  | .error e => ⟨.error e, []⟩

/-- **Loading the configuration of a directory,** or the default where there is none. -/
def loadOrDefault (t : FileTree) (directory : FilePath) : Config.Loaded :=
  let loaded := k.load t (directory.join Config.fileName)
  match loaded.result with
  | .error (.notFound _) => ⟨.ok {}, loaded.log⟩
  | _ => loaded

/-- The first half of a save: the directories above the file. -/
def makeAbove (t : FileTree) (p : FilePath) : FileTree × Except ConfigError Unit :=
  match p.parent? with
  | some above => ((t.makeDirectories above).1, (t.makeDirectories above).2.mapError .io)
  | none => (t, .ok ())

/-- The second half of a save: the file itself. -/
def writeFile (t : FileTree) (p : FilePath) (c : Config) : Except ConfigError FileTree := do
  let text ← k.toText c
  (t.writeText p text).mapError .io

/-- **Saving a configuration.** The tree comes back also from a failure, since directories may
have been made by then. -/
def save (t : FileTree) (p : FilePath) (c : Config) : FileTree × Except ConfigError Unit :=
  let (t, made) := makeAbove t p
  match made with
  | .error e => (t, .error e)
  | .ok () =>
    match k.writeFile t p c with
    | .ok t => (t, .ok ())
    | .error e => (t, .error e)

end Codec

/-! ## The codec of the program -/

namespace Config

/-- The text of a configuration. -/
def render (c : Config) : String :=
  s!"[{diagnosticsKey}]\n" ++
    s!"{panicKey} = {c.diagnostics.panicOnError}\n" ++
    s!"{echoKey} = {c.diagnostics.echo}\n"

end Config

/-- **The codec of the program:** the library of `Toml.Decode`, and texts with one line for each
setting. -/
def Codec.standard : Codec := ⟨Toml.library, fun c => .ok c.render⟩

namespace Config

def parse : String → Except Toml.ParseError Config := Codec.standard.decode

def load : FileTree → FilePath → Loaded := Codec.standard.load

def loadOrDefault : FileTree → FilePath → Loaded := Codec.standard.loadOrDefault

def save : FileTree → FilePath → Config → FileTree × Except ConfigError Unit := Codec.standard.save

end Config

end SourceScan

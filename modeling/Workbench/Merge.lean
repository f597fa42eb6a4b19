import Workbench.Extract
import Workbench.Json.Canonical
set_option autoImplicit false

/-! The one configuration that all detected files give together. Files are laid over each other by
ascending rank, within a rank by descending path; so the higher rank wins, and of one rank the
first path. Every definition of a setting is kept with it. -/

namespace Workbench

structure Provenance where
  source : String
  /-- Every source that defined the setting, the last one standing. -/
  definedIn : List String
  deriving DecidableEq, Repr

structure ToolBlock where
  settings : Settings
  provenance : Entries Provenance
  deriving DecidableEq, Repr

namespace ToolBlock

def empty : ToolBlock := ⟨[], []⟩

def isEmpty (b : ToolBlock) : Bool := b.settings.isEmpty

def define (b : ToolBlock) (key : String) (value : Json) (source : String) : ToolBlock :=
  let earlier := ((b.provenance.find? key).map Provenance.definedIn).getD []
  ⟨b.settings.insert key value, b.provenance.insert key ⟨source, earlier ++ [source]⟩⟩

def overlay (b : ToolBlock) (settings : Settings) (source : String) : ToolBlock :=
  settings.foldl (fun b s => b.define s.1 s.2 source) b

end ToolBlock

structure SourceRecord where
  path : String
  entry : CatalogEntry
  digest : String
  parsed : Bool
  deriving DecidableEq, Repr

def SourceRecord.ofFile (f : DetectedFile) : SourceRecord := ⟨f.path, f.entry, f.digest, f.isParsed⟩

structure MergedConfig where
  /-- A category is there from its first tool on. -/
  categories : PerCategory (Option (Entries ToolBlock))
  /-- Without repetition, in path order. -/
  dependencies : List String
  sources : List SourceRecord
  mergeOrder : List String
  failures : List ParseFailure
  deriving DecidableEq, Repr

namespace MergedConfig

def empty : MergedConfig := ⟨⟨none, none, none⟩, [], [], [], []⟩

def requestSource : String := "<request>"

def blocks (c : MergedConfig) (category : Category) : Entries ToolBlock :=
  (c.categories.get category).getD []

def tool? (c : MergedConfig) (category : Category) (tool : String) : Option ToolBlock :=
  (c.blocks category).find? tool

def hasConfig (c : MergedConfig) (category : Category) (tool : String) : Bool :=
  (c.tool? category tool).any fun b => !b.isEmpty

def overlayBlock (blocks : Entries ToolBlock) (tool : String) (settings : Settings)
    (source : String) : Entries ToolBlock :=
  blocks.modify tool fun b => (b.getD ToolBlock.empty).overlay settings source

/-- Lays settings over one tool; the category and the block come up if they are not there. -/
def overlay (c : MergedConfig) (category : Category) (tool : String) (settings : Settings)
    (source : String) : MergedConfig :=
  { c with categories :=
      c.categories.modify category fun bs => some (overlayBlock (bs.getD []) tool settings source) }

/-- A request without settings leaves no trace. -/
def overlayRequest (c : MergedConfig) (category : Category) (tool : String) (settings : Settings) :
    MergedConfig :=
  if settings.isEmpty then c else c.overlay category tool settings requestSource

/-- By path, then by pattern. -/
def pathLe (a b : DetectedFile) : Bool :=
  a.path < b.path || (a.path == b.path && a.entry.pattern ≤ b.entry.pattern)

/-- By rank, then by path backwards. -/
def layerLe (a b : DetectedFile) : Bool :=
  a.entry.rank.weight < b.entry.rank.weight ||
    (a.entry.rank == b.entry.rank && b.path ≤ a.path)

def byPath (files : List DetectedFile) : List DetectedFile := files.mergeSort pathLe

/-- The parsed files, the ones that win last. -/
def layers (files : List DetectedFile) : List DetectedFile :=
  ((byPath files).filter DetectedFile.isParsed).mergeSort layerLe

def addNew (known : List String) (x : String) : List String :=
  if known.contains x then known else known ++ [x]

def addTool (source : String) (c : MergedConfig) (block : String × Settings) : MergedConfig :=
  (Category.all.filter fun k => k.priority.contains block.1).foldl
    (fun c k => c.overlay k block.1 block.2 source) c

def addLayer (c : MergedConfig) (f : DetectedFile) : MergedConfig :=
  f.toolBlocks.foldl (addTool f.path) { c with mergeOrder := c.mergeOrder ++ [f.path] }

def merge (files : List DetectedFile) : MergedConfig :=
  let sorted := byPath files
  let start : MergedConfig :=
    { empty with
      sources := sorted.map SourceRecord.ofFile
      failures := sorted.filterMap DetectedFile.parseFailure?
      dependencies := (sorted.flatMap DetectedFile.dependencies).foldl addNew [] }
  (layers files).foldl addLayer start

end MergedConfig

def Provenance.toJson (p : Provenance) : Json :=
  Json.ofFields [("source", .string p.source), ("defined_in", Json.ofStrings p.definedIn)]

def ToolBlock.toJson (b : ToolBlock) : Json :=
  Json.ofFields
    [("settings", b.settings.toJson),
      ("provenance", .object (b.provenance.mapValues Provenance.toJson))]

def SourceRecord.toJson (r : SourceRecord) : Json :=
  Json.ofFields
    ([("path", .string r.path), ("pattern", .string r.entry.pattern),
      ("dialect", .string r.entry.dialect.name), ("rank", .string r.entry.rank.name),
      ("digest", .string r.digest), ("parsed", .bool r.parsed)] ++
      (r.entry.owner.map fun o => ("owner", Json.string o)).toList)

def ParseFailure.toJson (f : ParseFailure) : Json :=
  Json.ofFields [("file", .string f.file), ("reason", .string f.reason)]

namespace MergedConfig

def categoriesJson (c : MergedConfig) : Json :=
  Json.ofFields (Category.all.filterMap fun k =>
    (c.categories.get k).map fun bs => (k.name, .object (bs.mapValues ToolBlock.toJson)))

def toJson (c : MergedConfig) : Json :=
  Json.ofFields
    [("categories", c.categoriesJson),
      ("dependencies", Json.ofStrings c.dependencies),
      ("sources", .array (c.sources.map SourceRecord.toJson)),
      ("merge_order", Json.ofStrings c.mergeOrder),
      ("parse_failures", .array (c.failures.map ParseFailure.toJson))]

def digest (c : MergedConfig) : String := Digest.sha256 (Utf8.encode c.toJson.canonicalChars)

end MergedConfig
end Workbench

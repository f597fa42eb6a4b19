import Workbench.Catalog
import Workbench.Exclude
import Workbench.FileTree
set_option autoImplicit false

/-! Finding the known configuration files below a root. Links are followed, but no real directory
is entered twice, so the search ends whatever the links; excluded directories are not entered. -/

namespace Workbench

structure LocatedFile where
  /-- The absolute path by the names that led there. -/
  path : List String
  relative : String
  entry : CatalogEntry
  deriving DecidableEq, Repr

inductive LocateError where
  | invalidWorkspace (path reason : String)
  | exclude (e : ExcludeError)
  | badPattern (pattern : String) (e : GlobError)
  deriving DecidableEq, Repr

def LocateError.message : LocateError → String
  | .invalidWorkspace p r => "invalid workspace '" ++ p ++ "': " ++ r
  | .exclude e => e.message
  | .badPattern p e => "catalog pattern '" ++ p ++ "' is invalid: " ++ e.message

structure Locator where
  maxDepth : Nat
  excludes : ExcludeRules
  patterns : List (CatalogEntry × Glob)

namespace Locator

def compile (e : CatalogEntry) : Except LocateError (CatalogEntry × Glob) :=
  match Glob.parse true e.pattern with
  | .ok g => .ok (e, g)
  | .error err => .error (.badPattern e.pattern err)

def make (maxDepth : Nat) (extra : List String) : Except LocateError Locator := do
  let patterns ← Catalog.entries.mapM compile
  match ExcludeRules.ofPatterns extra with
  | .ok rules => .ok ⟨maxDepth, rules, patterns⟩
  | .error e => .error (.exclude e)

def matching (l : Locator) (relative : String) : List CatalogEntry :=
  l.patterns.filterMap fun (e, g) => if g.isMatch (Utf8.encoded relative) then some e else none

/-- The real directories seen, and the paths below the root of what is no directory. -/
structure Walk where
  visited : List (List String)
  found : List (List String)

mutual
/-- Looks at the entries of a directory in order. `fuel` bounds the directories still to enter and
`depth` how far below this one to look. -/
def walkDirectory (t : FileTree) (l : Locator) :
    (fuel depth : Nat) → (real names : List String) → Walk → Walk
  | 0, _, _, _, w => w
  | _, 0, _, _, w => w
  | fuel + 1, depth + 1, real, names, w =>
    walkEntries t l fuel depth real names (t.names real) w

def walkEntries (t : FileTree) (l : Locator) :
    (fuel depth : Nat) → (real names : List String) → List String → Walk → Walk
  | _, _, _, _, [], w => w
  | fuel, depth, real, names, n :: ns, w =>
    let path := names ++ [n]
    let w := match t.follow FileTree.maxLinks real [n] with
      | .error _ => w
      | .ok target =>
        if t.isDirectoryAt target then
          if l.excludes.isExcluded (Text.joined "/" path) then w
          else if w.visited.contains target then w
          else walkDirectory t l fuel depth target path { w with visited := target :: w.visited }
        else { w with found := path :: w.found }
    walkEntries t l fuel depth real names ns w
end

def walk (t : FileTree) (l : Locator) (root : List String) : List (List String) :=
  (walkDirectory t l (t.entries.length + 1) l.maxDepth root [] ⟨[root], []⟩).found.reverse

def fileLe (a b : LocatedFile) : Bool :=
  a.relative < b.relative || (a.relative == b.relative && a.entry.pattern ≤ b.entry.pattern)

/-- The real place of a root. Every directory of a tree can be listed, so that no root is refused as
not readable. -/
def validateRoot (t : FileTree) (cwd : List String) (root : String) :
    Except LocateError (List String) :=
  match t.resolve cwd root with
  | .error _ => .error (.invalidWorkspace root "does not exist")
  | .ok p =>
    if t.isDirectoryAt p then .ok p else .error (.invalidWorkspace root "not a directory")

def locateIn (t : FileTree) (l : Locator) (root : List String) : List LocatedFile :=
  ((l.walk t root).flatMap fun names =>
    let relative := Text.joined "/" names
    (l.matching relative).map fun e => ⟨root ++ names, relative, e⟩).mergeSort fileLe

/-- The files below a root by path, then by pattern. -/
def locate (t : FileTree) (cwd : List String) (l : Locator) (root : String) :
    Except LocateError (List LocatedFile) :=
  (validateRoot t cwd root).map (l.locateIn t)

/-- Which patterns some file fits. -/
def check (t : FileTree) (cwd : List String) (l : Locator) (root : String) :
    Except LocateError (Entries Bool) :=
  (l.locate t cwd root).map fun files =>
    Entries.ofList (Catalog.entries.map fun e =>
      (e.pattern, files.any fun f => f.entry.pattern == e.pattern))

end Locator
end Workbench

import Workbench.Glob
import Workbench.Text.Lines
set_option autoImplicit false

namespace Workbench

structure ExcludeRules where
  globs : List Glob
  deriving Repr

structure ExcludeError where
  cause : GlobError
  deriving DecidableEq, Repr

def ExcludeError.message (e : ExcludeError) : String :=
  "invalid exclude pattern: " ++ e.cause.message

namespace ExcludeRules

def standard : List String :=
  [".git", ".hg", ".svn", "venv", ".venv", "v", "env", ".env", "site-packages", "__pycache__",
    "node_modules", "build", "dist", ".tox", ".nox", ".mypy_cache", ".pytest_cache", ".ruff_cache",
    "*.egg-info"]

/-- A pattern without blanks around and separators behind; none when nothing is left. -/
def tidy? (pattern : String) : Option String :=
  match Text.dropEndWhile (· == '/') (Text.trim pattern.toList) with
  | [] => none
  | cs => some (String.ofList cs)

/-- The standard rules and others; the first pattern that is no glob fails them all. -/
def ofPatterns (extra : List String) : Except ExcludeError ExcludeRules :=
  match (standard ++ extra.filterMap tidy?).mapM (Glob.parse false) with
  | .ok globs => .ok ⟨globs⟩
  | .error e => .error ⟨e⟩

def anyMatch (r : ExcludeRules) (path : String) : Bool :=
  r.globs.any fun g => g.isMatch (Utf8.encoded path)

/-- The last part of a path; one that ends in its parent has none. -/
def lastName? (path : String) : Option String :=
  match ((Text.pieces (· == '/') path.toList).filter fun p => !p.isEmpty && p != ['.']).getLast? with
  | none => none
  | some p => if p = ['.', '.'] then none else some (String.ofList p)

def isExcluded (r : ExcludeRules) (path : String) : Bool :=
  (lastName? path).any r.anyMatch || r.anyMatch path

end ExcludeRules
end Workbench

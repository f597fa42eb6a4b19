import Workbench.Path
set_option autoImplicit false

/-! A tree of files: directories, files and symbolic links, each under the parts of its path. A
path is followed part by part from the root; a link stands for its target, and at most forty links
are followed. -/

namespace Workbench

inductive Entry where
  | directory
  | file (content : List UInt8) (executable : Bool)
  | link (target : String)
  deriving DecidableEq, Repr

inductive PathError where
  | notFound | notDirectory | isDirectory | tooManyLinks | nameTooLong | zeroByte
  deriving DecidableEq, Repr

def PathError.description : PathError → String
  | .notFound => "No such file or directory"
  | .notDirectory => "Not a directory"
  | .isDirectory => "Is a directory"
  | .tooManyLinks => "Too many levels of symbolic links"
  | .nameTooLong => "File name too long"
  | .zeroByte => "file name contained an unexpected NUL byte"

def PathError.number? : PathError → Option Nat
  | .notFound => some 2
  | .notDirectory => some 20
  | .isDirectory => some 21
  | .tooManyLinks => some 40
  | .nameTooLong => some 36
  | .zeroByte => none

def PathError.message (e : PathError) : String :=
  match e.number? with
  | some n => e.description ++ s!" (os error {n})"
  | none => e.description

/-- The root itself is always a directory and has no entry. -/
structure FileTree where
  entries : List (List String × Entry)
  deriving DecidableEq, Repr

namespace FileTree

def empty : FileTree := ⟨[]⟩

def entryAt? (t : FileTree) (path : List String) : Option Entry :=
  if path = [] then some .directory else (t.entries.find? fun e => e.1 == path).map (·.2)

def isDirectoryAt (t : FileTree) (path : List String) : Bool :=
  match t.entryAt? path with
  | some .directory => true
  | _ => false

def put (t : FileTree) (path : List String) (e : Entry) : FileTree :=
  if path = [] then t else ⟨(t.entries.filter fun x => x.1 != path) ++ [(path, e)]⟩

def remove (t : FileTree) (path : List String) : FileTree :=
  ⟨t.entries.filter fun x => !path.isPrefixOf x.1⟩

/-- Makes the directories along a path where nothing is. -/
def makeDirectories (t : FileTree) (path : List String) : FileTree :=
  (List.range path.length).foldl (fun t i =>
    let p := path.take (i + 1)
    if (t.entryAt? p).isSome then t else t.put p .directory) t

def place (t : FileTree) (path : List String) (e : Entry) : FileTree :=
  (t.makeDirectories path.dropLast).put path e

def insertSorted (x : String) : List String → List String
  | [] => [x]
  | y :: ys => if x ≤ y then x :: y :: ys else y :: insertSorted x ys

def names (t : FileTree) (path : List String) : List String :=
  (t.entries.filterMap fun e =>
    if e.1.dropLast == path && e.1 != [] then e.1.getLast? else none).foldr insertSorted []

def maxLinks : Nat := 40

def isTooLong (name : String) : Bool := 255 < name.utf8ByteSize

def follow (t : FileTree) (links : Nat) (at_ : List String) :
    List String → Except PathError (List String)
  | [] => .ok at_
  | p :: ps =>
    if !t.isDirectoryAt at_ then .error .notDirectory
    else if p = "" || p = "." then t.follow links at_ ps
    else if p = ".." then t.follow links at_.dropLast ps
    else if isTooLong p then .error .nameTooLong
    else match t.entryAt? (at_ ++ [p]) with
      | none => .error .notFound
      | some (.link target) =>
        match links with
        | 0 => .error .tooManyLinks
        | links + 1 =>
          if target = "" then .error .notFound
          else
            t.follow links (if Path.isAbsolute target then [] else at_) (Path.pieces target ++ ps)
      | some _ => t.follow links (at_ ++ [p]) ps
termination_by ps => (links, ps.length)

def resolve (t : FileTree) (cwd : List String) (path : String) : Except PathError (List String) :=
  if path.toList.contains (Char.ofNat 0) then .error .zeroByte
  else if path = "" then .error .notFound
  else t.follow maxLinks (if Path.isAbsolute path then [] else cwd) (Path.pieces path)

def exists? (t : FileTree) (cwd : List String) (path : String) : Bool :=
  (t.resolve cwd path).toOption.isSome

def isDirectory (t : FileTree) (cwd : List String) (path : String) : Bool :=
  (t.resolve cwd path).toOption.any t.isDirectoryAt

def fileAt? (t : FileTree) (path : List String) : Option (List UInt8 × Bool) :=
  match t.entryAt? path with
  | some (.file content executable) => some (content, executable)
  | _ => none

def isFile (t : FileTree) (cwd : List String) (path : String) : Bool :=
  (t.resolve cwd path).toOption.any fun p => (t.fileAt? p).isSome

def isExecutable (t : FileTree) (cwd : List String) (path : String) : Bool :=
  (t.resolve cwd path).toOption.any fun p => (t.fileAt? p).any (·.2)

def read (t : FileTree) (cwd : List String) (path : String) : Except PathError (List UInt8) := do
  let p ← t.resolve cwd path
  match t.fileAt? p with
  | some (content, _) => .ok content
  | none => .error .isDirectory

/-- The real place of a path whose last part need not be there. -/
def placeFor (t : FileTree) (cwd : List String) (path : String) :
    Except PathError (List String) :=
  match t.resolve cwd path with
  | .ok p => .ok p
  | .error .notFound =>
    let start := if Path.isAbsolute path then [] else cwd
    match (Path.pieces path).getLast? with
    | none | some "" | some "." | some ".." => .error .notFound
    | some name =>
      if isTooLong name then .error .nameTooLong
      else match t.follow maxLinks start (Path.pieces path).dropLast with
        | .error e => .error e
        | .ok d =>
          if !t.isDirectoryAt d then .error .notDirectory
          else match t.entryAt? (d ++ [name]) with
            | none => .ok (d ++ [name])
            | some _ => .error .notFound
  | .error e => .error e

end FileTree
end Workbench

import Std.Time.DateTime.Timestamp
import Workbench.CommandLine.Run
import Workbench.Shell.Launch
set_option autoImplicit false

namespace Workbench.Snapshot

def maxDepth : Nat := 8

/-- Files above this size are taken for empty ones. -/
def maxSize : Nat := 1000000

def partsOf (path : String) : List String := (Path.pieces path).filter (· != "")

def fileOf (content : List UInt8) : Entry := .file content ([35, 33].isPrefixOf content)

def add (t : FileTree) : (depth : Nat) → (place : String) → IO FileTree
  | 0, _ => pure t
  | depth + 1, place => do
    try
      let real ← IO.FS.realPath place
      let path := partsOf place
      match (← real.metadata).type with
      | .dir =>
        let names := (← real.readDir).toList.map fun e => e.fileName
        names.foldlM (fun t name => add t depth (Path.join place name)) (t.place path .directory)
      | .file =>
        let small := (← real.metadata).byteSize.toNat ≤ maxSize
        let content ← if small then IO.FS.readBinFile real else pure ByteArray.empty
        pure (t.place path (fileOf content.toList))
      | _ => pure t
    catch _ => pure t

def variableNames : List String := ["PATH", "HOME", "LFT_CONFIG"]

def environment : IO (List (String × String)) := do
  let found ← variableNames.mapM fun name => do
    return (← IO.getEnv name).map fun value => (name, value)
  pure (found.filterMap id)

/-- The places that may matter: here, what the arguments name, and configuration files. -/
def places (here : String) (environment : List (String × String)) (args : List String) :
    List String :=
  let named := (args.filter CommandLine.isPlain).map (Path.join here)
  let configs := environment.filterMap fun v =>
    if v.1 == "LFT_CONFIG" then some (Path.join here v.2)
    else if v.1 == "HOME" then some (Path.join v.2 ".config/lft/config.toml")
    else none
  here :: named ++ configs

def input (args : List String) : IO (List UInt8) := do
  match CommandLine.Invocation.read args with
  | .ok ⟨_, .serve⟩ => return (← (← IO.getStdin).readBinToEnd).toList
  | _ => pure []

def surroundings (args : List String) : IO CommandLine.Surroundings := do
  let here := (← IO.currentDir).toString
  let environment ← environment
  let tree ← (places here environment args).foldlM (fun t p => add t maxDepth p) FileTree.empty
  let path := ((environment.find? fun v => v.1 == "PATH").map (·.2)).getD ""
  let now := (← Std.Time.Timestamp.now).val
  let seconds := now.second.val
  let instant : Instant := ⟨seconds / 60, (seconds % 60).toNat, now.nano.val.toNat⟩
  pure ⟨⟨Shell.Program.install tree, partsOf here, path.splitOn ":", Shell.launch environment⟩,
    environment, instant, fun _ => [], ← input args⟩

end Workbench.Snapshot

open Workbench in
def main (args : List String) : IO UInt32 := do
  let w ← Snapshot.surroundings args
  match CommandLine.carryOut w args with
  | none => pure 1
  | some o =>
    IO.print o.output
    if let some text := o.complaint then IO.eprintln text
    pure (UInt32.ofNat o.exitCode)

import Workbench.FileTree
set_option autoImplicit false

/-! Processes as laws: what a program does, given every signal that its group is sent and when.
Times are microseconds from its start. -/

namespace Workbench

inductive Signal where
  | hangup | interrupt | quit | abort | kill | user1 | segmentation | user2 | pipe | alarm
  | terminate
  deriving DecidableEq, Repr

namespace Signal

def all : List Signal :=
  [.hangup, .interrupt, .quit, .abort, .kill, .user1, .segmentation, .user2, .pipe, .alarm,
    .terminate]

def number : Signal → Nat
  | .hangup => 1
  | .interrupt => 2
  | .quit => 3
  | .abort => 6
  | .kill => 9
  | .user1 => 10
  | .segmentation => 11
  | .user2 => 12
  | .pipe => 13
  | .alarm => 14
  | .terminate => 15

def name : Signal → String
  | .hangup => "HUP"
  | .interrupt => "INT"
  | .quit => "QUIT"
  | .abort => "ABRT"
  | .kill => "KILL"
  | .user1 => "USR1"
  | .segmentation => "SEGV"
  | .user2 => "USR2"
  | .pipe => "PIPE"
  | .alarm => "ALRM"
  | .terminate => "TERM"

def description : Signal → String
  | .hangup => "Hangup"
  | .interrupt => "Interrupt"
  | .quit => "Quit"
  | .abort => "Aborted"
  | .kill => "Killed"
  | .user1 => "User defined signal 1"
  | .segmentation => "Segmentation fault"
  | .user2 => "User defined signal 2"
  | .pipe => "Broken pipe"
  | .alarm => "Alarm clock"
  | .terminate => "Terminated"

def ofNumber? (n : Nat) : Option Signal := all.find? fun s => s.number == n

def ofName? (s : String) : Option Signal := all.find? fun x => x.name == s

end Signal

inductive ExitStatus where
  | exited (code : Nat)
  | signalled (s : Signal)
  deriving DecidableEq, Repr

namespace ExitStatus

def isSuccess (s : ExitStatus) : Bool := s == .exited 0

/-- Only a process that ends by itself has an exit code. -/
def code? : ExitStatus → Option Nat
  | .exited n => some n
  | .signalled _ => none

end ExitStatus

inductive Stream where
  | out | err
  deriving DecidableEq, Repr

structure Chunk where
  time : Nat
  stream : Stream
  bytes : List UInt8
  deriving DecidableEq, Repr

structure Conduct where
  /-- When and how the leader ends, if it does. -/
  ending : Option (Nat × ExitStatus)
  output : List Chunk
  trees : List (Nat × FileTree)

/-- A process answers the signals that are sent to its group. -/
structure Process where
  conduct : List (Nat × Signal) → Conduct

namespace Conduct

def endedBy (c : Conduct) (time : Nat) : Option ExitStatus :=
  match c.ending with
  | some (t, s) => if t ≤ time then some s else none
  | none => none

def written (c : Conduct) (stream : Stream) (until_ : Nat) : List UInt8 :=
  ((c.output.filter fun k => k.stream == stream && k.time ≤ until_).map Chunk.bytes).flatten

def treeAt (c : Conduct) (start : FileTree) (time : Nat) : FileTree :=
  ((c.trees.filter fun x => x.1 ≤ time).getLast?.map (·.2)).getD start

def firstTime (c : Conduct) (property : FileTree → Bool) : Option Nat :=
  (c.trees.find? fun x => property x.2).map (·.1)

end Conduct

structure Launch where
  program : String
  args : List String
  workDir : List String
  deriving DecidableEq, Repr

inductive LaunchError where
  | path (e : PathError)
  | notExecutable
  | badFormat
  | zeroByte
  | refused (reason : String)
  deriving DecidableEq, Repr

def LaunchError.message : LaunchError → String
  | .path e => e.message
  | .notExecutable => "Permission denied (os error 13)"
  | .badFormat => "Exec format error (os error 8)"
  | .zeroByte => "nul byte found in provided data"
  | .refused reason => reason

structure Host where
  tree : FileTree
  cwd : List String
  searchPath : List String
  launch : FileTree → Launch → Except LaunchError Process

end Workbench

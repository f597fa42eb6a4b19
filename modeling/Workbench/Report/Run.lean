import Workbench.Instant
import Workbench.Selection
set_option autoImplicit false

namespace Workbench

inductive RunStatus where
  | success | nonZeroExit | timedOut | toolNotFound | cancelled
  deriving DecidableEq, Repr, Inhabited

namespace RunStatus

def all : List RunStatus := [.success, .nonZeroExit, .timedOut, .toolNotFound, .cancelled]

def name : RunStatus → String
  | .success => "success"
  | .nonZeroExit => "non_zero_exit"
  | .timedOut => "timed_out"
  | .toolNotFound => "tool_not_found"
  | .cancelled => "cancelled"

def isSuccess (s : RunStatus) : Bool := s == .success

def decoder : Json.Decoder RunStatus := Json.Decode.variant (all.map fun s => (s.name, s))

end RunStatus

structure RunReport where
  category : String
  tool : String
  reason : SelectionReason
  status : RunStatus
  exitCode : Option Int
  stdout : String
  stderr : String
  durationMs : Nat
  workDir : String
  command : List String
  startedAt : Instant
  deriving DecidableEq, Repr

namespace RunReport

def toJson (r : RunReport) : Json :=
  Json.ofFields
    ([("category", .string r.category), ("tool", .string r.tool), ("reason", .string r.reason.name),
      ("status", .string r.status.name), ("stdout", .string r.stdout), ("stderr", .string r.stderr),
      ("duration_ms", Json.ofNat r.durationMs), ("work_dir", .string r.workDir),
      ("command", Json.ofStrings r.command), ("started_at", .string r.startedAt.text)] ++
      (r.exitCode.map fun c => ("exit_code", Json.ofInt c)).toList)

def blank : RunReport := ⟨"", "", .defaultFallback, .success, none, "", "", 0, "", [], ⟨0, 0, 0⟩⟩

open Json.Decode in
def decoder : Json.Decoder RunReport :=
  record "RunResponse" false
    [ field "category" .required string fun r s => { r with category := s },
      field "tool" .required string fun r s => { r with tool := s },
      field "reason" .required SelectionReason.decoder fun r s => { r with reason := s },
      field "status" .required RunStatus.decoder fun r s => { r with status := s },
      field "exit_code" .optional (option i32) fun r c => { r with exitCode := c },
      field "stdout" .required string fun r s => { r with stdout := s },
      field "stderr" .required string fun r s => { r with stderr := s },
      field "duration_ms" .required u64 fun r n => { r with durationMs := n },
      field "work_dir" .required string fun r s => { r with workDir := s },
      field "command" .required (list string) fun r xs => { r with command := xs },
      field "started_at" .required Instant.decoder fun r i => { r with startedAt := i } ]
    blank

end RunReport
end Workbench

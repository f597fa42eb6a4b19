import Workbench.Shell.Expand
set_option autoImplicit false

namespace Workbench.Shell.Redirect

open Run Expand

def cannot (verb : String) (path : Raw) (why : String) : Run Bool := do
  report ("cannot " ++ verb ++ " " ++ path.text ++ ": " ++ why)
  pure false

def openText : PathError → String
  | .notFound => "No such file"
  | e => e.description

def createText : PathError → String
  | .notFound => "Directory nonexistent"
  | e => e.description

def standing? (path : Raw) : Option Nat :=
  match String.ofList path with
  | "/dev/stdin" => some 0
  | "/dev/stdout" => some 1
  | "/dev/stderr" => some 2
  | _ => none

def redirectTo (descriptor : Nat) (how : Redirection) (path : Raw) : Run Bool := do
  if path == "/dev/null".toList then do
    connect descriptor .nothing
    pure true
  else match standing? path with
    | some d => do
      connect descriptor (← targetOf d)
      pure true
    | none =>
      match how with
      | .read =>
        match ← readFile path with
        | .ok text => do
          connect descriptor (← openSource text)
          pure true
        | .error e => cannot "open" path (openText e)
      | _ =>
        match ← placeFor path with
        | .error e => cannot "create" path (createText e)
        | .ok p => do
          if (← view).isDirectoryAt p then cannot "create" path "Is a directory"
          else do
            let there := ((← view).fileAt? p).isSome
            if how = .write || !there then truncate p
            connect descriptor (.file p)
            pure true

def redirect (substitute : Raw → Run Raw) (r : Redirect) : Run Bool := do
  let target ← single substitute r.target
  match r.how with
  | .hereDocument => do
    connect r.descriptor (← openSource target)
    pure true
  | .duplicate =>
    if target == ['-'] then do
      disconnect r.descriptor
      pure true
    else match (String.ofList target).toNat? with
      | some d => do
        if ((← own).descriptors.any fun x => x.1 == d) then do
          connect r.descriptor (← targetOf d)
          pure true
        else do
          unless r.descriptor = 2 do report (target.text ++ ": Bad file descriptor")
          pure false
      | none => fault "Syntax error: Bad fd number"
  | how => redirectTo r.descriptor how target

/-- Follows redirections up to the first that fails. -/
def redirectAll (substitute : Raw → Run Raw) : List Redirect → Run Bool
  | [] => pure true
  | r :: rs => do
    if ← redirect substitute r then redirectAll substitute rs else pure false

def withRedirects (substitute : Raw → Run Raw) (rs : List Redirect) (action : Run Nat) :
    Run Nat := do
  if rs.isEmpty then action
  else
    let before := (← own).descriptors
    let restore : Run Unit := modifyOwn fun o => { o with descriptors := before }
    tryCatch
      (do
        let good ← redirectAll substitute rs
        let code ← if good then action else pure 2
        restore
        pure code)
      fun j => do
        restore
        throw j

end Workbench.Shell.Redirect

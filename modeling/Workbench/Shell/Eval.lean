import Workbench.Shell.Builtin
import Workbench.Shell.Reader
import Workbench.Shell.Redirect
import Workbench.Shell.Start
set_option autoImplicit false

/-! Running commands. Depth of nesting is bounded by fuel; rounds of a loop have a bound of their
own. What a command cannot go on from is a jump: an exit, a signal, or leaving a loop or function. -/

namespace Workbench.Shell.Eval

open Run Expand Child Redirect Builtin Start

/-- Rounds of a loop until one answers none; the last status is the loop's. -/
def rounds (round : Run (Option Nat)) : (fuel : Nat) → (status : Nat) → Run Nat
  | 0, status => pure status
  | n + 1, status => do
    match ← round with
    | some s => rounds round n s
    | none => pure status

def mostRounds : Nat := 100000000

def eachRound (round : Raw → Run (Option Nat)) : List Raw → (status : Nat) → Run Nat
  | [], status => pure status
  | x :: xs, status => do
    match ← round x with
    | some s => eachRound round xs s
    | none => pure status

def round (body : Run (Option Nat)) : Run (Option Nat) :=
  tryCatch body fun j =>
    match j with
    | .leaveLoop n => if n ≤ 1 then pure none else throw (.leaveLoop (n - 1))
    | .nextRound n => if n ≤ 1 then pure (some 0) else throw (.nextRound (n - 1))
    | j => throw j

/-- A failing command ends a shell that stops on failure, unless it is tested. -/
def failed (tested : Bool) (code : Nat) : Run Nat := do
  if code != 0 && !tested && (← own).stopsOnFailure then throw (.exit code) else pure code

def inLoop (action : Run Nat) : Run Nat := do
  let before := (← own).loops
  let restore : Run Unit := modifyOwn fun o => { o with loops := before }
  modifyOwn fun o => { o with loops := before + 1 }
  tryCatch
    (do
      let code ← action
      restore
      pure code)
    fun j => do
      restore
      throw j

/-- An argument; what a declaring command assigns is one field. -/
def argument (substitute : Raw → Run Raw) (declaring : Bool) (w : Word) : Run (List Raw) := do
  if declaring && (Read.assignment? w).isSome then return [← single substitute w]
  else fields substitute w

def isDeclaration (s : Simple) : Bool :=
  ((s.words.head?.bind Word.plain?).map fun w => isDeclaring (String.ofList w)).getD false

/-- Redirections of a special command end the shell where they fail. -/
def withRedirectsOf (key : String) (substitute : Raw → Run Raw) (rs : List Redirect)
    (action : Run Nat) : Run Nat := do
  if isSpecial key && !rs.isEmpty then do
    let before := (← own).descriptors
    if ← redirectAll substitute rs then
      let code ← tryCatch action fun j => do
        modifyOwn fun o => { o with descriptors := before }
        throw j
      modifyOwn fun o => { o with descriptors := before }
      pure code
    else throw (.exit 2)
  else withRedirects substitute rs action

def sourcePath? (name : Raw) : Run (Option Raw) := do
  if name.contains '/' then pure (some name)
  else
    let o ← own
    let directories := Text.pieces (· == ':') ((valueOf? o "PATH".toList).getD [])
    let t ← view
    pure ((directories.map fun d => if d.isEmpty then name else d ++ '/' :: name).find? fun p =>
      t.isFile o.directory p.text)

mutual
def source : (fuel : Nat) → (tested : Bool) → Source → Run Nat
  | 0, _, _ => fault "too deep"
  | n + 1, tested, s => do
    match s.next with
    | .error e => do
      modifyOwn fun o => { o with line := e.line }
      fault e.problem
    | .ok none => return (← own).status
    | .ok (some (cs, rest)) => do
      let _ ← list n tested cs
      source n tested rest

def list : (fuel : Nat) → (tested : Bool) → List Command → Run Nat
  | 0, _, _ => fault "too deep"
  | _, _, [] => pure 0
  | n + 1, tested, c :: cs => do
    let code ← command n tested c
    if cs.isEmpty then pure code else list n tested cs

/-- Runs one command and sees to the signals that came meanwhile. -/
def command : (fuel : Nat) → (tested : Bool) → Command → Run Nat
  | 0, _, _ => fault "too deep"
  | n + 1, tested, c => do
    signals n
    let code ← compound n tested c
    setStatus code
    signals n
    pure code

/-- Runs the actions of trapped signals; the status stays. -/
def signals : (fuel : Nat) → Run Unit
  | 0 => pure ()
  | n + 1 => do
    (← takeSignals).forM fun (_, action) => do
      let status := (← own).status
      let _ ← source n false (.ofText action (← own).line)
      setStatus status

def substitute : (fuel : Nat) → Raw → Run Raw
  | 0, _ => pure []
  | n + 1, text => do
    let sink ← fresh
    let line := (← own).line
    let ending ← inChild do
      connect 1 (.sink sink)
      leaving n (source n false (.ofText text line))
    setStatus (statusCode ending)
    written sink

def leaving : (fuel : Nat) → Run Nat → Run Nat
  | 0, action => action
  | n + 1, action => do
    let r ← (tryCatch (Except.ok <$> action) fun j => pure (.error j) : Run (Except Jump Nat))
    match r with
    | .error (.killed s) => throw (.killed s)
    | r => do
      let code := statusCode (endingOf r)
      let atExit := (← own).atExit
      if atExit.isEmpty then pure code
      else do
        modifyOwn fun o => { o with atExit := [], status := code }
        let _ ← source n false (.ofText atExit 1)
        pure code

def compound : (fuel : Nat) → (tested : Bool) → Command → Run Nat
  | 0, _, _ => fault "too deep"
  | n + 1, tested, c => do
    let sub := substitute n
    match c with
    | .simple s => failed tested (← simple n tested s)
    | .both a b => do
      let x ← command n true a
      if x = 0 then command n tested b else pure x
    | .either a b => do
      let x ← command n true a
      if x = 0 then pure 0 else command n tested b
    | .background c => spawn (leaving n (command n true c))
    | .pipeline negated parts => do
      let x ← match parts with
        | [c] => command n (tested || negated) c
        | _ => failed (tested || negated) (← piped n parts)
      pure (if negated then (if x = 0 then 1 else 0) else x)
    | .group body rs => withRedirects sub rs (list n tested body)
    | .subshell body rs => do
      let ending ← inChild (withRedirects sub rs (leaving n (list n tested body)))
      failed tested (← afterChild n ending)
    | .choose condition body otherwise rs =>
      withRedirects sub rs do
        if (← list n true condition) = 0 then list n tested body else list n tested otherwise
    | .loop untilTrue condition body rs =>
      withRedirects sub rs do
        inLoop (rounds (round (do
          let x ← list n true condition
          if (x == 0) == untilTrue then pure none
          else some <$> list n tested body)) mostRounds 0)
    | .forEach name words body rs =>
      withRedirects sub rs do
        let values ← match words with
          | some ws => (List.flatten <$> ws.mapM (fields sub))
          | none => Own.arguments <$> own
        inLoop (eachRound (fun v => do
          Expand.define "" name v
          round (some <$> list n tested body)) values 0)
    | .cases w arms rs =>
      withRedirects sub rs do
        let text ← single sub w
        chosen n tested text arms
    | .define name body => do
      modifyOwn fun o =>
        { o with functions := (name, body) :: o.functions.filter fun f => f.1 != name }
      pure 0

def chosen : (fuel : Nat) → (tested : Bool) → Raw → List (List Word × List Command) → Run Nat
  | 0, _, _, _ => fault "too deep"
  | _, _, _, [] => pure 0
  | n + 1, tested, text, (patterns, body) :: arms => do
    let fits ← patterns.anyM fun w => do return (← pattern (substitute n) w).fits text
    if fits then list n tested body else chosen n tested text arms

def afterChild : (fuel : Nat) → ExitStatus → Run Nat
  | 0, ending => pure (statusCode ending)
  | n + 1, ending => do
    let actions ← takeSignals
    announce ending
    actions.forM fun (_, action) => do
      let _ ← source n false (.ofText action (← own).line)
    pure (statusCode ending)

/-- Runs the parts of a pipe at once, each one's output the input of the next. -/
def piped : (fuel : Nat) → List Command → Run Nat
  | 0, _ => fault "too deep"
  | n + 1, parts => do
    let start ← now
    let (code, last, _) ← parts.zipIdx.foldlM (fun ((_, last, input) : Nat × Nat × Target)
        (c, i) => do
      let sink ← fresh
      let isLast := i + 1 == parts.length
      modify fun s => { s with now := start }
      let ending ← inChild do
        connect 0 input
        unless isLast do connect 1 (.sink sink)
        leaving n (command n true c)
      let ended ← now
      let next ← if isLast then pure Target.nothing else openSource (← written sink)
      pure (statusCode ending, max last ended, next)) (0, start, ← targetOf 0)
    modify fun s => { s with now := max s.now last }
    pure code

def assign : (fuel : Nat) → List Assignment → Run Unit
  | 0, _ => pure ()
  | _, [] => pure ()
  | n + 1, a :: as => do
    let value ← single (substitute n) a.value
    Expand.define "" a.name value
    assign n as

def simple : (fuel : Nat) → (tested : Bool) → Simple → Run Nat
  | 0, _, _ => fault "too deep"
  | n + 1, tested, s => do
    modifyOwn fun o => { o with line := s.line }
    let before := (← own).status
    let words ← List.flatten <$> s.words.mapM (argument (substitute n) (isDeclaration s))
    match words with
    | [] => do
      setStatus 0
      let code ← withRedirects (substitute n) s.redirects do
        assign n s.assignments
        return (← own).status
      pass builtinCost
      pure code
    | name :: arguments => do
      setStatus before
      called n tested s (String.ofList name) name arguments

def called : (fuel : Nat) → (tested : Bool) → Simple → String → Raw → List Raw → Run Nat
  | 0, _, _, _, _, _ => fault "too deep"
  | n + 1, tested, s, key, name, arguments => do
    let sub := substitute n
    let o ← own
    match o.functions.find? fun f => f.1 == name with
    | some (_, body) =>
      withRedirects sub s.redirects do
        inFunction arguments do
          s.assignments.forM fun a => shadow a.name
          assign n s.assignments
          s.assignments.forM fun a => publish a.name
          command n tested body
    | none =>
      match key with
      | "exec" => do
        assign n s.assignments
        if ← redirectAll sub s.redirects then
          match arguments with
          | [] => pure 0
          | program :: rest => replaced n program rest
        else throw (.exit 2)
      | "eval" =>
        withRedirectsOf key sub s.redirects do
          assign n s.assignments
          let line := (← own).line
          setStatus 0
          source n tested (.ofText (Text.join [' '] arguments) line)
      | "." =>
        withRedirectsOf key sub s.redirects do
          assign n s.assignments
          match arguments with
          | [] => pure 0
          | name :: _ =>
            match ← sourcePath? name with
            | none => fault (".: " ++ name.text ++ ": not found")
            | some path =>
              match ← readFile path with
              | .ok text =>
                tryCatch (source n false (.ofText text 1)) fun j =>
                  match j with
                  | .leaveFunction c => pure c
                  | j => throw j
              | .error _ => fault (".: cannot open " ++ path.text ++ ": No such file")
      | "type" => withRedirects sub s.redirects (typeOf arguments)
      | "command" =>
        match (Program.options arguments).1, (Program.options arguments).2 with
        | [], program :: rest => called n tested s (String.ofList program) program rest
        | _, program :: _ => do
          match simpleBuiltin? (String.ofList program) [], ← search? program with
          | some _, _ => do print (program ++ ['\n']); pure 0
          | none, some path => do print (path ++ ['\n']); pure 0
          | none, none => pure 127
        | _, [] => pure 0
      | _ =>
        match simpleBuiltin? key arguments with
        | some action => do
          let kept := (← own).bindings
          let code ← withRedirectsOf key sub s.redirects do
            assign n s.assignments
            pass builtinCost
            action
          unless s.assignments.isEmpty || isSpecial key do
            modifyOwn fun o => { o with bindings := kept }
          pure code
        | none => external n s name arguments

def external : (fuel : Nat) → Simple → Raw → List Raw → Run Nat
  | 0, _, _, _ => fault "too deep"
  | n + 1, s, name, arguments => do
    let sub := substitute n
    let kept := (← own).bindings
    assign n s.assignments
    let names := s.assignments.map (·.name)
    names.forM publish
    let code ← withRedirects sub s.redirects do
      match ← search? name with
      | none => do
        report (name.text ++ ": not found")
        pure 127
      | some path => do
        let ending ← inChild (program n name path arguments)
        afterChild n ending
    unless s.assignments.isEmpty do modifyOwn fun o => { o with bindings := kept }
    pure code

def replaced : (fuel : Nat) → Raw → List Raw → Run Nat
  | 0, _, _ => fault "too deep"
  | n + 1, name, arguments => do
    match ← search? name with
    | none => do
      report ("exec: " ++ name.text ++ ": not found")
      throw (.exit 127)
    | some path => do
      modifyOwn fun o => { o with dispositions := inherited o.dispositions, atExit := [] }
      let code ← program n name path arguments
      throw (.exit code)

/-- Runs what a file holds; the shell itself runs one of no known form. -/
def program : (fuel : Nat) → (name path : Raw) → List Raw → Run Nat
  | 0, _, _, _ => fault "too deep"
  | n + 1, name, path, arguments => do
    pass startCost
    match started (← view) (← own).directory maxInterpreters path arguments with
    | .ok (key, self, arguments) => installed n key (if self == path then name else self) arguments
    | .error .badFormat => shell n path (path :: arguments)
    | .error (.path .notFound) => do
      report (name.text ++ ": not found")
      pure 127
    | .error (.path e) => do
      report (name.text ++ ": " ++ e.description)
      pure 126
    | .error .notExecutable => do
      report (name.text ++ ": Permission denied")
      pure 126

def installed : (fuel : Nat) → (key : String) → (self : Raw) → List Raw → Run Nat
  | 0, _, _, _ => fault "too deep"
  | n + 1, key, self, arguments =>
    match Program.find? key with
    | some f => f arguments
    | none => if key == "env" then withEnvironment n arguments else shell n self arguments

def withEnvironment : (fuel : Nat) → List Raw → Run Nat
  | 0, _ => fault "too deep"
  | n + 1, arguments => do
    let (arguments, isBare) := match arguments with
      | ['-', 'i'] :: rest => (rest, true)
      | rest => (rest, false)
    if isBare then modifyOwn fun o => { o with bindings := [] }
    let (sets, rest) := envAssignments arguments
    sets.forM fun (x, v) => do
      modifyOwn fun o => setVariable o x v
      publish x
    match rest with
    | [] => Program.printenv []
    | name :: rest =>
      match ← search? name with
      | some path => program n name path rest
      | none => Program.failing "env" (Program.quoted name ++ ": No such file or directory") 127

def shell : (fuel : Nat) → (self : Raw) → List Raw → Run Nat
  | 0, _, _ => fault "too deep"
  | n + 1, self, arguments => do
    let k := shellCall arguments ⟨none, [], []⟩
    let refuse (problem : String) : Run Nat := do
      becomeShell self [] []
      modifyOwn fun o => { o with line := 0 }
      report problem
      pure 2
    match k.letters.find? fun c => !('c' :: optionLetters).contains c with
    | some c => refuse ("Illegal option " ++ Raw.text ['-', c])
    | none =>
      match k.script, k.operands with
      | some script, operands => do
        becomeShell (operands.headD self) (operands.drop 1) k.letters
        leaving n (source n false (.ofText script 1))
      | none, path :: rest =>
        if k.letters.contains 's' then do
          becomeShell self (path :: rest) k.letters
          leaving n (source n false (.ofText (← readAll 0) 1))
        else match ← readFile path with
          | .ok text => do
            becomeShell path rest k.letters
            leaving n (source n false (.ofText text 1))
          | .error e => refuse ("cannot open " ++ path.text ++ ": " ++ openText e)
      | none, [] =>
        if k.letters.contains 'c' then refuse "-c requires an argument"
        else do
          becomeShell self [] k.letters
          leaving n (source n false (.ofText (← readAll 0) 1))
end

end Workbench.Shell.Eval

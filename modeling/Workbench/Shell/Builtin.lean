import Workbench.Shell.Program
import Workbench.Shell.Reader
import Workbench.Shell.Start
set_option autoImplicit false

namespace Workbench.Shell.Builtin

open Run Expand Child

def setStatus (n : Nat) : Run Unit := modifyOwn fun o => { o with status := n }

def numberFor (command : String) (standard : Nat) : List Raw → Run Nat
  | [] => pure standard
  | a :: _ =>
    match Filter.natOf? a with
    | some n => pure n
    | none => fault (command ++ ": Illegal number: " ++ a.text)

def exitCode (command : String) (arguments : List Raw) : Run Nat := do
  return (← numberFor command (← own).status arguments) % 256

/-- Puts a variable into the environment of what is started from here on. -/
def publish (name : Raw) : Run Unit :=
  modifyOwn fun o =>
    let found := ((valueOf? o name).map fun v => (name, (⟨v, true⟩ : Variable))).toList
    { o with bindings := found ++ o.bindings.filter fun v => v.1 != name }

/-- Keeps what a variable is outside the function at hand. -/
def shadow (name : Raw) : Run Unit :=
  modifyOwn fun o =>
    let outer := (o.bindings.find? fun v => v.1 == name).map (·.2)
    { o with shadowed := o.shadowed.map ((name, outer) :: ·) }

def unshadow : Run Unit :=
  modifyOwn fun o =>
    (o.shadowed.getD []).foldl (fun o (name, outer) =>
      { o with bindings :=
          (outer.map fun v => (name, v)).toList ++ o.bindings.filter fun v => v.1 != name }) o

/-- Runs a function's body: arguments and locals are its own, and a return ends it. -/
def inFunction (arguments : List Raw) (body : Run Nat) : Run Nat := do
  let before ← own
  modifyOwn fun o => { o with arguments := arguments, shadowed := some [], loops := 0 }
  let restore : Run Unit := do
    unshadow
    modifyOwn fun o =>
      { o with arguments := before.arguments, shadowed := before.shadowed, loops := before.loops }
  tryCatch
    (do
      let code ← body
      restore
      pure code)
    fun j => do
      restore
      match j with
      | .leaveFunction code => pure code
      | j => throw j

def isDeclaring (name : String) : Bool := ["export", "readonly", "local"].contains name

def declare (command : String) (arguments : List Raw) : Run Nat := do
  if command == "local" && (← own).shadowed.isNone then fault "local: not in a function"
  else do
    (Program.options arguments).2.forM fun a => do
      let (name, value) := definition a
      if !isName name then fault (command ++ ": " ++ name.text ++ ": bad variable name")
      else do
        if command == "local" then shadow name
        value.forM (Expand.define (command ++ ": ") name)
        if command == "export" then publish name
        if command == "readonly" then modifyOwn fun o => { o with fixed := name :: o.fixed }
    pure 0

def unset (arguments : List Raw) : Run Nat := do
  let (letters, names) := Program.options arguments
  names.forM fun name => do
    if letters.contains 'f' then pure ()
    else if !isName name then fault ("unset: " ++ name.text ++ ": bad variable name")
    else if (← own).fixed.contains name then fault ("unset: " ++ name.text ++ ": is read only")
  modifyOwn fun o =>
    if letters.contains 'f' then
      { o with functions := o.functions.filter fun f => !names.contains f.1 }
    else { o with bindings := o.bindings.filter fun v => !names.contains v.1 }
  pure 0

def cd (arguments : List Raw) : Run Nat := do
  let o ← own
  let target := match arguments with
    | [] => (valueOf? o "HOME".toList).getD []
    | ['-'] :: _ => (valueOf? o "OLDPWD".toList).getD []
    | p :: _ => p
  match ← resolve target with
  | .ok p =>
    if (← view).isDirectoryAt p then do
      modifyOwn fun o => setVariable { o with directory := p } "OLDPWD".toList
        (Raw.ofString (Path.ofParts o.directory))
      modifyOwn fun o => setVariable o "PWD".toList (Raw.ofString (Path.ofParts p))
      pure 0
    else do
      report ("cd: can't cd to " ++ target.text)
      pure 2
  | .error _ => do
    report ("cd: can't cd to " ++ target.text)
    pure 2

def signalOf? (s : Raw) : Option Signal :=
  match Filter.natOf? s with
  | some n => Signal.ofNumber? n
  | none =>
    let name := (s.map Char.toUpper)
    Signal.ofName? (String.ofList ((Text.stripStart? "SIG".toList name).getD name))

def isExitName (s : Raw) : Bool := s == ['0'] || s.map Char.toUpper == "EXIT".toList

/-- Sets what becomes of some signals; an action of one hyphen is the standard one. -/
def trap (arguments : List Raw) : Run Nat := do
  match arguments with
  | [] => pure 0
  | action :: names => do
    let (action, names) :=
      if names.isEmpty || (Filter.natOf? action).isSome then (['-'], arguments)
      else (action, names)
    Program.each names fun name => do
      if isExitName name then do
        modifyOwn fun o => { o with atExit := if action == ['-'] then [] else action }
        pure 0
      else match signalOf? name with
        | none => do
          complain ("trap: " ++ name.text ++ ": bad trap\n")
          pure 1
        | some s => do
          let d : Disposition :=
            if action == ['-'] then .standard else if action.isEmpty then .ignored
            else .trapped action
          modifyOwn fun o =>
            { o with dispositions := (s, d) :: o.dispositions.filter fun x => x.1 != s }
          pure 0

def killUsage : String :=
  "kill: Usage: kill [-s sigspec | -signum | -sigspec] [pid | job]... or\nkill -l [exitstatus]"

def kill (arguments : List Raw) : Run Nat := do
  let (signal, targets) : Option (Option Signal) × List Raw := match arguments with
    | ['-', 's'] :: name :: rest => ((signalOf? name).map some, rest)
    | ['-', '0'] :: rest => (some none, rest)
    | ['-', '-'] :: rest => (some (some .terminate), rest)
    | ('-' :: name) :: rest => ((signalOf? name).map some, rest)
    | rest => (some (some .terminate), rest)
  match signal with
  | none => do
    report ("kill: Illegal option " ++ Raw.text ((arguments.headD []).take 2))
    pure 2
  | some signal =>
    if targets.isEmpty then do
      report killUsage
      pure 2
    else Program.each targets fun t => do
      let o ← own
      let id : Option Int := match t with
        | '%' :: _ => o.lastJob.map Int.ofNat
        | _ => Printing.integer? t
      match id, signal with
      | some id, some s =>
        if ← send s id then pure 0
        else do
          report "kill: No such process"
          pure 1
      | some id, none => do
        let now ← now
        let there := id == o.id || id == o.shell ||
          o.jobs.any fun j => (j.id : Int) == id && now ≤ j.deeds.ending.time
        pure (if there then 0 else 1)
      | none, _ => do
        report ("kill: Illegal number: " ++ t.text)
        pure 2

/-- Waits for jobs up to some time; a signal ends the waiting. -/
def waitUntil (time : Nat) (code : Nat) : Run Nat := do
  match ← firstSignal (max time (← now)) with
  | some t => do
    modify fun s => { s with now := max s.now t.time }
    pure (128 + t.value.number)
  | none => do
    modify fun s => { s with now := max s.now time }
    modifyOwn fun o => { o with waited := max o.waited time + 1 }
    pure code

def wait (arguments : List Raw) : Run Nat := do
  let o ← own
  if arguments.isEmpty then do
    let last := o.jobs.foldl (fun t j => max t j.deeds.ending.time) 0
    let code ← waitUntil last 0
    pure code
  else
    arguments.foldlM (fun _ a => do
      match o.jobs.find? fun j => some j.id == Filter.natOf? a with
      | none => pure 127
      | some j => do
        let code ← waitUntil j.deeds.ending.time (statusCode j.deeds.ending.value)
        if o.waited ≤ j.deeds.ending.time then announce j.deeds.ending.value
        pure code) 0

/-- A line for each name; the last name takes all that is left. -/
def assignWords : List Raw → Raw → Run Unit
  | [], _ => pure ()
  | [name], text => Expand.define "read: " name (trimBlanks text)
  | name :: names, text => do
    let t := text.dropWhile isBlankSeparator
    let w := t.takeWhile fun c => !isBlankSeparator c
    Expand.define "read: " name w
    assignWords names (t.drop w.length)

def joinContinued : (fuel : Nat) → Raw → Raw × Option Raw
  | 0, s => (s, none)
  | n + 1, s =>
    let (line, after) := Text.cutAt (· == '\n') s
    match Text.stripEnd? ['\\'] line, after with
    | some l, some r =>
      let (more, after) := joinContinued n r
      (l ++ more, after)
    | _, _ => (line, after)

def read (arguments : List Raw) : Run Nat := do
  let (letters, names) := Program.options arguments
  if names.isEmpty then do
    report "read: arg count"
    return 2
  let text ← left 0
  let (line, after) :=
    if letters.contains 'r' then Text.cutAt (· == '\n') text
    else joinContinued (text.length + 1) text
  leave 0 (after.getD [])
  assignWords names line
  pure (if after.isSome then 0 else 1)

def shift (arguments : List Raw) : Run Nat := do
  let n ← numberFor "shift" 1 arguments
  let o ← own
  if o.arguments.length < n then fault "shift: can't shift that many"
  else do
    modifyOwn fun o => { o with arguments := o.arguments.drop n }
    pure 0

def optionNames : List (String × Char) :=
  [("errexit", 'e'), ("noglob", 'f'), ("ignoreeof", 'I'), ("interactive", 'i'), ("monitor", 'm'),
    ("noexec", 'n'), ("stdin", 's'), ("xtrace", 'x'), ("verbose", 'v'), ("vi", 'V'),
    ("emacs", 'E'), ("noclobber", 'C'), ("allexport", 'a'), ("notify", 'b'), ("nounset", 'u')]

def optionLetters : Raw := 'o' :: optionNames.map (·.2)

def setOption (on : Bool) (letter : Char) : Run Unit :=
  modifyOwn fun o =>
    if letter == 'e' then { o with stopsOnFailure := on }
    else if letter == 'u' then { o with stopsOnUnset := on }
    else o

def setOptions : List Raw → Run Nat
  | [] => pure 0
  | ['-', '-'] :: rest => do
    modifyOwn fun o => { o with arguments := rest }
    pure 0
  | (sign :: c :: cs) :: rest => do
    if sign == '-' || sign == '+' then do
      let on := sign == '-'
      match (c :: cs).find? fun x => !optionLetters.contains x with
      | some x => fault ("set: Illegal option " ++ Raw.text [sign, x])
      | none =>
        (c :: cs).forM (setOption on)
        match (c :: cs).contains 'o', rest with
        | true, name :: rest =>
          match optionNames.find? fun x => x.1.toList == name with
          | some (_, letter) => do
            setOption on letter
            setOptions rest
          | none => fault ("set: Illegal option " ++ Raw.text [sign, 'o', ' '] ++ name.text)
        | _, rest => setOptions rest
    else do
      modifyOwn fun o => { o with arguments := (sign :: c :: cs) :: rest }
      pure 0
  | rest => do
    modifyOwn fun o => { o with arguments := rest }
    pure 0

def jumpLoops (command : String) (jump : Nat → Jump) (arguments : List Raw) : Run Nat := do
  let n ← numberFor command 1 arguments
  let loops := (← own).loops
  if n = 0 then fault (command ++ ": Illegal number: 0")
  else if loops = 0 then pure 0
  else throw (jump (min n loops))

def simpleBuiltin? (name : String) (arguments : List Raw) : Option (Run Nat) :=
  match name with
  | ":" | "true" => some (pure 0)
  | "false" => some (pure 1)
  | "echo" => some (do print (Printing.echo arguments); pure 0)
  | "printf" => some (do
      match arguments with
      | format :: rest => do
        let (text, faults) := Printing.printf format rest
        print text
        Program.each faults fun f => do
          report ("printf: " ++ f.text ++ ": expected numeric value")
          pure 1
      | [] => do
        report "printf: usage: printf format [arg ...]"
        pure 2)
  | "test" | "[" => some (do
      let closed := arguments.getLast? == some [']']
      if name == "[" && !closed then do
        report "[: missing ]"
        pure 2
      else
        let operands := if name == "[" then arguments.dropLast else arguments
        match Condition.eval ⟨← view, (← own).directory⟩ operands with
        | .ok b => pure (if b then 0 else 1)
        | .error p => do
          report (name ++ ": " ++ p.message)
          pure 2)
  | "pwd" => some (Program.pwd arguments)
  | "cd" => some (cd arguments)
  | "export" | "readonly" | "local" => some (declare name arguments)
  | "unset" => some (unset arguments)
  | "set" => some (setOptions arguments)
  | "shift" => some (shift arguments)
  | "trap" => some (trap arguments)
  | "kill" => some (kill arguments)
  | "wait" => some (wait arguments)
  | "read" => some (read arguments)
  | "umask" => some (do
      if arguments.isEmpty then print "0022\n".toList
      pure 0)
  | "hash" | "times" | "ulimit" => some (pure 0)
  | "break" => some (jumpLoops name .leaveLoop arguments)
  | "continue" => some (jumpLoops name .nextRound arguments)
  | "return" => some (do throw (.leaveFunction (← exitCode name arguments)))
  | "exit" => some (do throw (.exit (← exitCode name arguments)))
  | _ => none

/-- Commands whose assignments and redirections outlive them. -/
def isSpecial (name : String) : Bool :=
  [":", "break", "continue", ".", "eval", "exec", "exit", "export", "readonly", "return", "set",
    "shift", "times", "trap", "unset"].contains name

def isEvaluating (name : String) : Bool := ["exec", "eval", ".", "command", "type"].contains name

/-- What kind of command a name is, in the words of `type`. -/
def kindOf (name : Raw) : Run (Option String) := do
  let key := String.ofList name
  if Read.reservedWords.contains key then pure (some "is a shell keyword")
  else if (← own).functions.any fun f => f.1 == name then pure (some "is a shell function")
  else if isSpecial key then pure (some "is a special shell builtin")
  else if isEvaluating key || (simpleBuiltin? key []).isSome then
    pure (some "is a shell builtin")
  else
    match ← Start.search? name with
    | some path =>
      pure (if (← view).isExecutable (← own).directory path.text then some ("is " ++ path.text)
        else none)
    | none => pure none

def typeOf (names : List Raw) : Run Nat :=
  Program.each names fun name => do
    match ← kindOf name with
    | some kind => do
      print (name ++ Raw.ofString (" " ++ kind ++ "\n"))
      pure 0
    | none => do
      print (name ++ ": not found\n".toList)
      pure 127

end Workbench.Shell.Builtin

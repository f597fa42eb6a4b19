import Workbench.Shell.Condition
import Workbench.Shell.Expand
import Workbench.Shell.Filter
set_option autoImplicit false

namespace Workbench.Shell.Program

open Run

/-- How the file of an installed program begins; its name follows. -/
def mark : Raw := '\x7f' :: "ELF".toList

def contentOf (name : String) : Raw := mark ++ name.toList

def named? (content : Raw) : Option String :=
  (Text.stripStart? mark content).map String.ofList

def failing (name message : String) (code : Nat) : Run Nat := do
  complain (name ++ ": " ++ message ++ "\n")
  pure code

/-- Letters given as options, and the other arguments; two hyphens end the options. -/
def options : List Raw → Raw × List Raw
  | [] => ([], [])
  | ['-', '-'] :: rest => ([], rest)
  | ('-' :: c :: cs) :: rest =>
    let (letters, others) := options rest
    (c :: cs ++ letters, others)
  | a :: rest =>
    let (letters, others) := options rest
    (letters, a :: others)

def quoted (r : Raw) : String := "'" ++ r.text ++ "'"

def each (operands : List Raw) (f : Raw → Run Nat) : Run Nat :=
  operands.foldlM (fun code x => do
    let c ← f x
    pure (if c = 0 then code else c)) 0

def input (name : String) (file : Raw) : Run (Option Raw) := do
  if file == ['-'] then return some (← readAll 0)
  else
    match ← readFile file with
    | .ok text => return some text
    | .error e => do
      complain (name ++ ": " ++ file.text ++ ": " ++ e.description ++ "\n")
      return none

def inputs (name : String) (files : List Raw) : Run (Raw × Nat) :=
  (if files.isEmpty then [['-']] else files).foldlM (fun (text, code) f => do
    match ← input name f with
    | some t => pure (text ++ t, code)
    | none => pure (text, 1)) ([], 0)

def filtering (name : String) (files : List Raw) (f : Raw → Raw) : Run Nat := do
  let (text, code) ← inputs name files
  print (f text)
  pure code

def cat (arguments : List Raw) : Run Nat := do
  let (_, files) := options arguments
  each (if files.isEmpty then [['-']] else files) fun f => do
    match ← input "cat" f with
    | some text => do print text; pure 0
    | none => pure 1

/-- A count given as `-n 3`, `-n3` or `-3`, and the other arguments. -/
def counted (letter : Char) : List Raw → Option Raw × List Raw
  | ('-' :: c :: cs) :: rest =>
    if c == letter then
      if cs.isEmpty then (rest.head?, rest.drop 1) else (some cs, rest)
    else if c.isDigit && letter == 'n' then (some (c :: cs), rest)
    else
      let (n, others) := counted letter rest
      (n, ('-' :: c :: cs) :: others)
  | a :: rest =>
    let (n, others) := counted letter rest
    (n, a :: others)
  | [] => (none, [])

def head (arguments : List Raw) : Run Nat := do
  let (bytes, rest) := counted 'c' arguments
  let (lines, files) := counted 'n' rest
  filtering "head" files fun text =>
    match bytes.bind Filter.natOf? with
    | some n => text.take n
    | none => Filter.firstLines ((lines.bind Filter.natOf?).getD 10) text

def tail (arguments : List Raw) : Run Nat := do
  let (bytes, rest) := counted 'c' arguments
  let (lines, files) := counted 'n' rest
  filtering "tail" files fun text =>
    match bytes.bind Filter.natOf?, lines with
    | some n, _ => text.drop (text.length - n)
    | none, some ('+' :: n) => Filter.linesFrom ((Filter.natOf? n).getD 1) text
    | none, some n => Filter.lastLines ((Filter.natOf? n).getD 10) text
    | none, none => Filter.lastLines 10 text

def wc (arguments : List Raw) : Run Nat := do
  let (letters, files) := options arguments
  let counts (text : Raw) : List Nat :=
    let lines := text.count '\n'
    let words := (Text.words text).length
    let chosen := (if letters.contains 'l' then [lines] else []) ++
      (if letters.contains 'w' then [words] else []) ++
      (if letters.contains 'c' || letters.contains 'm' then [text.length] else [])
    if letters.isEmpty then [lines, words, text.length] else chosen
  let row (text : Raw) (name : Raw) : Raw :=
    let ns := counts text
    let width := if ns.length = 1 then 0 else 7
    let cells := ns.map fun n =>
      let t := Expand.number n
      List.replicate (width - t.length) ' ' ++ t
    Text.join [' '] cells ++ (if name.isEmpty then [] else ' ' :: name) ++ ['\n']
  if files.isEmpty then do
    print (row (← readAll 0) [])
    pure 0
  else each files fun f => do
    match ← input "wc" f with
    | some text => do print (row text f); pure 0
    | none => pure 1

def tr (arguments : List Raw) : Run Nat := do
  let (letters, sets) := options arguments
  let complement := letters.contains 'c' || letters.contains 'C'
  let first := Filter.set (sets.headD [])
  let inFirst (c : Char) : Bool := first.contains c != complement
  let text ← readAll 0
  if letters.contains 'd' then print (text.filter fun c => !inFirst c)
  else match sets with
    | [_, target] =>
      let target := Filter.set target
      let text :=
        if complement then text.map fun c => if inFirst c then target.getLastD c else c
        else Filter.translate first target text
      print (if letters.contains 's' then Filter.squeeze target text else text)
    | _ => print (if letters.contains 's' then Filter.squeeze first text else text)
  pure 0

def sort (arguments : List Raw) : Run Nat := do
  let (letters, files) := options arguments
  filtering "sort" files
    (Filter.sorted ⟨letters.contains 'n', letters.contains 'r', letters.contains 'u'⟩)

def uniq (arguments : List Raw) : Run Nat := do
  let (letters, files) := options arguments
  filtering "uniq" files fun text =>
    (Filter.runs (Filter.linesOf text)).flatMap fun (n, l) =>
      let t := Expand.number n
      let count := if letters.contains 'c' then List.replicate (7 - t.length) ' ' ++ t ++ [' '] else []
      count ++ l ++ ['\n']

def cut (arguments : List Raw) : Run Nat := do
  let (separator, rest) := counted 'd' arguments
  let (fields, rest) := counted 'f' rest
  let (chars, files) := counted 'c' rest
  let sep := ((separator.getD []).head?).getD '\t'
  filtering "cut" files fun text =>
    Filter.unlines ((Filter.linesOf text).map fun l =>
      match fields, chars with
      | some spec, _ => Filter.cutFields sep spec l
      | none, some spec => Filter.cutChars spec l
      | none, none => l)

def grep (arguments : List Raw) : Run Nat := do
  let (letters, operands) := options arguments
  match operands with
  | [] => failing "grep" "usage" 2
  | source :: files => do
    let fixed := letters.contains 'F'
    let pattern :=
      if fixed then some (source.foldr (fun c r => Regex.both (.one c) r) .empty)
      else Regex.read? (letters.contains 'E') source
    match pattern with
    | none => failing "grep" "Invalid regular expression" 2
    | some a => do
      let (text, _) ← inputs "grep" files
      let fits (l : Raw) : Bool :=
        (Regex.firstMatch (letters.contains 'i') a l 0).isSome != letters.contains 'v'
      let found := (Filter.linesOf text).zipIdx.filter fun l => fits l.1
      if letters.contains 'q' then pure ()
      else if letters.contains 'c' then print (Expand.number found.length ++ ['\n'])
      else print (found.flatMap fun (l, i) =>
        (if letters.contains 'n' then Expand.number (i + 1) ++ [':'] else []) ++ l ++ ['\n'])
      pure (if found.isEmpty then 1 else 0)

def sedArguments : List Raw → Raw × List Raw × List Raw
  | [] => ([], [], [])
  | ['-', 'e'] :: script :: rest =>
    let (letters, scripts, files) := sedArguments rest
    (letters, script :: scripts, files)
  | ('-' :: c :: cs) :: rest =>
    let (letters, scripts, files) := sedArguments rest
    (c :: cs ++ letters, scripts, files)
  | a :: rest =>
    let (letters, scripts, files) := sedArguments rest
    (letters, scripts, a :: files)

def sed (arguments : List Raw) : Run Nat := do
  let (letters, scripts, operands) := sedArguments arguments
  let (script, files) :=
    if scripts.isEmpty then (operands.headD [], operands.drop 1)
    else (Text.join ['\n'] scripts, operands)
  let extended := letters.contains 'E' || letters.contains 'r'
  match Filter.script? extended (script.length + 1) script with
  | none => failing "sed" "-e expression #1, char 1: unknown command" 1
  | some steps => filtering "sed" files (Filter.edited (letters.contains 'n') steps)

def duration? (s : Raw) : Option Nat :=
  if s == "infinity".toList || s == "inf".toList then some 1000000000000000
  else
    let whole := s.takeWhile Char.isDigit
    let rest := s.drop whole.length
    let (fraction, rest) := match rest with
      | '.' :: r => (r.takeWhile Char.isDigit, r.dropWhile Char.isDigit)
      | r => ([], r)
    let unit : Option Nat := match rest with
      | [] | ['s'] => some 1
      | ['m'] => some 60
      | ['h'] => some 3600
      | ['d'] => some 86400
      | _ => none
    let six := (fraction ++ List.replicate 6 '0').take 6
    if whole.isEmpty && fraction.isEmpty then none
    else do
      let u ← unit
      let a ← if whole.isEmpty then some 0 else Filter.natOf? whole
      let b ← Filter.natOf? six
      some ((a * 1000000 + b) * u)

def sleep (arguments : List Raw) : Run Nat := do
  match arguments with
  | [] => failing "sleep" "missing operand\nTry 'sleep --help' for more information." 1
  | _ =>
    match arguments.find? fun a => (duration? a).isNone with
    | some a => failing "sleep" ("invalid time interval " ++ quoted a ++
        "\nTry 'sleep --help' for more information.") 1
    | none => do
      let total := arguments.foldl (fun n a => n + (duration? a).getD 0) 0
      sleepUntil ((← now) + total)
      pure 0

def touch (arguments : List Raw) : Run Nat := do
  let (letters, files) := options arguments
  each files fun f => do
    match ← placeFor f with
    | .error e => failing "touch" ("cannot touch " ++ quoted f ++ ": " ++ e.description) 1
    | .ok p => do
      if ((← view).entryAt? p).isNone && !letters.contains 'c' then change (.put p (.file [] false))
      pure 0

def mkdir (arguments : List Raw) : Run Nat := do
  let (letters, files) := options arguments
  each files fun f => do
    if letters.contains 'p' then
      let here := (← own).directory
      let start := if Path.isAbsolute f.text then [] else here
      let parts := (Path.pieces f.text).filter fun p => p != "" && p != "."
      (List.range parts.length).forM fun i => do
        let p := start ++ parts.take (i + 1)
        if ((← view).entryAt? p).isNone then change (.put p .directory)
      pure 0
    else match ← placeFor f with
      | .error e =>
        failing "mkdir" ("cannot create directory " ++ quoted f ++ ": " ++ e.description) 1
      | .ok p =>
        if ((← view).entryAt? p).isSome then
          failing "mkdir" ("cannot create directory " ++ quoted f ++ ": File exists") 1
        else do
          change (.put p .directory)
          pure 0

def rm (arguments : List Raw) : Run Nat := do
  let (letters, files) := options arguments
  let recursive := letters.contains 'r' || letters.contains 'R'
  each files fun f => do
    match ← resolve f with
    | .error e =>
      if letters.contains 'f' then pure 0
      else failing "rm" ("cannot remove " ++ quoted f ++ ": " ++ e.description) 1
    | .ok p =>
      if (← view).isDirectoryAt p && !recursive then
        failing "rm" ("cannot remove " ++ quoted f ++ ": Is a directory") 1
      else do
        change (.remove p)
        pure 0

/-- Copies the content of a file; `moves` takes the first one away. -/
def copying (name : String) (moves : Bool) (arguments : List Raw) : Run Nat := do
  match (options arguments).2 with
  | [source, target] =>
    match ← resolve source with
    | .error e => failing name ("cannot stat " ++ quoted source ++ ": " ++ e.description) 1
    | .ok p => do
      let t ← view
      let base := (Path.pieces source.text).getLastD ""
      match ← placeFor target, t.entryAt? p with
      | .ok q, some e => do
        change (.put (if t.isDirectoryAt q then q ++ [base] else q) e)
        if moves then change (.remove p)
        pure 0
      | .error e, _ => failing name ("cannot create regular file " ++ quoted target ++ ": " ++
          e.description) 1
      | .ok _, none => pure 1
  | _ => failing name "missing file operand" 1

def chmod (arguments : List Raw) : Run Nat := do
  match arguments with
  | mode :: files =>
    let executable := mode.contains 'x' && !mode.contains '-' ||
      mode.any fun c => c == '7' || c == '5' || c == '1'
    each files fun f => do
      match ← resolve f with
      | .error e => failing "chmod" ("cannot access " ++ quoted f ++ ": " ++ e.description) 1
      | .ok p => do
        match (← view).fileAt? p with
        | some (content, _) => change (.put p (.file content executable))
        | none => pure ()
        pure 0
  | [] => failing "chmod" "missing operand" 1

def ls (arguments : List Raw) : Run Nat := do
  let (letters, files) := options arguments
  let shown (names : List String) : List String :=
    if letters.contains 'a' then "." :: ".." :: names
    else if letters.contains 'A' then names
    else names.filter fun n => !Expand.isHidden n
  each (if files.isEmpty then [['.']] else files) fun f => do
    match ← resolve f with
    | .error e => failing "ls" ("cannot access " ++ quoted f ++ ": " ++ e.description) 2
    | .ok p => do
      let t ← view
      if t.isDirectoryAt p && !letters.contains 'd' then
        print ((shown (t.names p)).flatMap fun n => Raw.ofString n ++ ['\n'])
      else print (f ++ ['\n'])
      pure 0

def tee (arguments : List Raw) : Run Nat := do
  let (letters, files) := options arguments
  let text ← readAll 0
  print text
  each files fun f => do
    match ← placeFor f with
    | .error e => failing "tee" (f.text ++ ": " ++ e.description) 1
    | .ok p => do
      unless letters.contains 'a' do truncate p
      appendTo p text
      pure 0

def basename (arguments : List Raw) : Run Nat := do
  match arguments with
  | p :: more =>
    let parts := (Text.pieces (· == '/') p).filter fun x => !x.isEmpty
    let name := parts.getLastD (if p.isEmpty then [] else ['/'])
    let name := match more with
      | suffix :: _ => if name == suffix then name else (Text.stripEnd? suffix name).getD name
      | [] => name
    print (name ++ ['\n'])
    pure 0
  | [] => failing "basename" "missing operand" 1

def dirname (arguments : List Raw) : Run Nat := do
  each arguments fun p => do
    let parts := (Text.pieces (· == '/') p).filter fun x => !x.isEmpty
    let lead : Raw := if p.head? == some '/' then ['/'] else []
    let above := lead ++ Text.join ['/'] parts.dropLast
    print ((if above.isEmpty then ['.'] else above) ++ ['\n'])
    pure 0

def progression (first step last : Int) : Nat → List Int
  | 0 => []
  | n + 1 =>
    if (0 < step && last < first) || (step < 0 && first < last) || step = 0 then []
    else first :: progression (first + step) step last n

def seq (arguments : List Raw) : Run Nat := do
  let numbers := arguments.filterMap Printing.integer?
  let run (first step last : Int) : Run Nat := do
    let count := (last - first).natAbs + 1
    print ((progression first step last count).flatMap fun n => Expand.intText n ++ ['\n'])
    pure 0
  match numbers with
  | [last] => run 1 1 last
  | [first, last] => run first 1 last
  | [first, step, last] => run first step last
  | _ => failing "seq" "missing operand" 1

def yes (arguments : List Raw) : Run Nat := do
  let line := (if arguments.isEmpty then ['y'] else Text.join [' '] arguments) ++ ['\n']
  print ((List.replicate (endlessLength / line.length + 1) line).flatten)
  throw (.killed .pipe)

def pwd (_ : List Raw) : Run Nat := do
  print (Raw.ofString (Path.ofParts (← own).directory) ++ ['\n'])
  pure 0

def environment (o : Own) : List (Raw × Raw) :=
  (o.bindings.reverse.filter fun v => v.2.exported).map fun v => (v.1, v.2.value)

def printenv (arguments : List Raw) : Run Nat := do
  let all := environment (← own)
  if arguments.isEmpty then do
    print (all.flatMap fun v => v.1 ++ '=' :: v.2 ++ ['\n'])
    pure 0
  else each arguments fun name => do
    match all.find? fun v => v.1 == name with
    | some (_, value) => do print (value ++ ['\n']); pure 0
    | none => pure 1

/-- What `echo` prints as a program: no escapes. -/
def echo (arguments : List Raw) : Run Nat := do
  match arguments with
  | ['-', 'n'] :: words => print (Text.join [' '] words)
  | words => print (Text.join [' '] words ++ ['\n'])
  pure 0

def printf (arguments : List Raw) : Run Nat := do
  match arguments with
  | format :: rest => do
    let (text, faults) := Printing.printf format rest
    print text
    each faults fun f => failing "printf" (quoted f ++ ": expected a numeric value") 1
  | [] => failing "printf" "missing operand" 1

def test (arguments : List Raw) : Run Nat := do
  match Condition.eval ⟨← view, (← own).directory⟩ arguments with
  | .ok b => pure (if b then 0 else 1)
  | .error p => failing "test" p.message 2

def bracket (arguments : List Raw) : Run Nat := do
  if arguments.getLast? == some [']'] then test arguments.dropLast
  else failing "[" "missing ']'" 2

def table : List (String × (List Raw → Run Nat)) :=
  [("true", fun _ => pure 0), ("false", fun _ => pure 1), ("echo", echo), ("printf", printf),
    ("test", test), ("[", bracket), ("cat", cat), ("head", head), ("tail", tail), ("wc", wc),
    ("tr", tr), ("sort", sort), ("uniq", uniq), ("cut", cut), ("grep", grep), ("sed", sed),
    ("sleep", sleep), ("touch", touch), ("mkdir", mkdir), ("rm", rm), ("cp", copying "cp" false),
    ("mv", copying "mv" true), ("chmod", chmod), ("ls", ls), ("tee", tee), ("basename", basename),
    ("dirname", dirname), ("seq", seq), ("yes", yes), ("pwd", pwd), ("printenv", printenv)]

def starters : List String := ["sh", "dash", "bash", "env"]

def find? (name : String) : Option (List Raw → Run Nat) :=
  (table.find? fun p => p.1 == name).map (·.2)

/-- A tree with all programs in their directory, which goes by two names. -/
def install (t : FileTree) : FileTree :=
  let t := t.place ["bin"] (.link "usr/bin")
  (table.map (·.1) ++ starters).foldl (fun t name =>
    t.place ["usr", "bin", name] (.file (contentOf name).toBytes true)) t

end Workbench.Shell.Program

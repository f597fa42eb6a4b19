import Workbench.Shell.Word
set_option autoImplicit false

namespace Workbench.Shell

structure Source where
  rest : Raw
  line : Nat
  /-- Lines of here-documents, to be counted at the end of the line that names them. -/
  pending : Nat
  deriving DecidableEq, Repr

def Source.ofText (text : Raw) (line : Nat) : Source := ⟨text, line, 0⟩

abbrev Read (α : Type) := StateT Source (Except SyntaxError) α

namespace Read

def fail {α : Type} (problem : String) : Read α := fun s => .error ⟨s.line, problem⟩

def countLines (s : Raw) : Nat := s.foldl (fun n c => if c == '\n' then n + 1 else n) 0

def moveTo (rest : Raw) : Read Unit :=
  modify fun s =>
    let passed := countLines (s.rest.take (s.rest.length - rest.length))
    if passed = 0 then { s with rest := rest } else ⟨rest, s.line + passed + s.pending, 0⟩

def rest : Read Raw := do return (← get).rest

def dropBlanks : Raw → Raw
  | [] => []
  | '\\' :: '\n' :: s => dropBlanks s
  | c :: s => if c == ' ' || c == '\t' then dropBlanks s else c :: s

def dropComment (s : Raw) : Raw :=
  if s.head? == some '#' then s.dropWhile (· != '\n') else s

def space : Read Unit := do moveTo (dropComment (dropBlanks (← rest)))

/-- Passes blanks, comments and ends of lines; `fuel` bounds the lines. -/
def blankLines : (fuel : Nat) → Read Unit
  | 0 => pure ()
  | n + 1 => do
    space
    match ← rest with
    | '\n' :: s => do moveTo s; blankLines n
    | _ => pure ()

def accept (operator : String) : Read Bool := do
  match Text.stripStart? operator.toList (← rest) with
  | some s => moveTo s; pure true
  | none => pure false

def startsWith (operator : String) : Read Bool := do
  return operator.toList.isPrefixOf (← rest)

def reservedWords : List String :=
  ["if", "then", "else", "elif", "fi", "do", "done", "case", "esac", "while", "until", "for",
    "\x7b", "\x7d", "!", "in"]

def closingWords : List String := ["then", "else", "elif", "fi", "do", "done", "esac", "\x7d"]

def isWordEnd (s : Raw) : Bool :=
  match s with
  | [] => true
  | c :: _ => isMeta c

def reservedAt (s : Raw) : Option String :=
  let w := s.takeWhile fun c => c.isAlpha || c == '\x7b' || c == '\x7d' || c == '!'
  let name := String.ofList w
  if reservedWords.contains name && isWordEnd (s.drop w.length) then some name else none

def acceptWord (w : String) : Read Bool := do
  space
  let s ← rest
  if reservedAt s == some w then moveTo (s.drop w.length); pure true else pure false

def word : Read Word := do
  match Word.read (← rest) with
  | .ok (w, s) => moveTo s; pure w
  | .error problem => fail ("Syntax error: " ++ problem)

def tokenName (s : Raw) : String :=
  let op (o : String) : Option String :=
    if o.toList.isPrefixOf s then some ("\"" ++ o ++ "\" unexpected") else none
  match s with
  | [] => "end of file unexpected"
  | '\n' :: _ => "newline unexpected"
  | _ =>
    match reservedAt s with
    | some w => "\"" ++ w ++ "\" unexpected"
    | none =>
      (["&&", "||", ";;", "(", ")", ";", "&", "|"].findSome? op).getD "word unexpected"

def unexpected {α : Type} (expected : String) : Read α := do
  let more := if expected = "" then "" else " (expecting \"" ++ expected ++ "\")"
  fail ("Syntax error: " ++ tokenName (← rest) ++ more)

def expectWord (w : String) : Read Unit := do
  unless ← acceptWord w do unexpected w

def atListEnd : Read Bool := do
  let s ← rest
  return s.isEmpty || s.head? == some ')' || ";;".toList.isPrefixOf s ||
    (reservedAt s).any closingWords.contains

def operators : List (String × Redirection) :=
  [("<<-", .hereDocument), ("<<", .hereDocument), ("<&", .duplicate), ("<>", .readWrite),
    ("<", .read), (">>", .append), (">&", .duplicate), (">|", .write), (">", .write)]

def standardDescriptor (operator : String) : Nat := if operator.toList.head? == some '<' then 0 else 1

def documentLines (strip : Bool) (ending : Raw) : (fuel : Nat) → Raw → Raw × Raw
  | 0, s => ([], s)
  | _, [] => ([], [])
  | n + 1, s =>
    let (line, after) := Text.cutAt (· == '\n') s
    let line := if strip then line.dropWhile (· == '\t') else line
    if line = ending then ([], after.getD [])
    else match after with
      | none => (line, [])
      | some after =>
        let (body, r) := documentLines strip ending n after
        (line ++ '\n' :: body, r)

/-- Takes the body of a here-document out of the lines that follow this one. -/
def hereDocument (strip : Bool) (delimiter : Word) : Read Word := do
  let s ← rest
  let ending := (Word.literal? delimiter).getD []
  let (line, after) := Text.cutAt (· == '\n') s
  let (body, r) := documentLines strip ending s.length (after.getD [])
  let passed := countLines (after.getD []) - countLines r
  modify fun st => { st with rest := line ++ '\n' :: r, pending := st.pending + passed }
  if delimiter.isQuoted then pure [.literal true body]
  else match Word.whole .document body with
    | .ok w => pure w
    | .error problem => fail ("Syntax error: " ++ problem)

def redirect? : Read (Option Redirect) := do
  let s ← rest
  let digits := s.takeWhile Char.isDigit
  let after := s.drop digits.length
  match operators.find? fun o => o.1.toList.isPrefixOf after with
  | none => pure none
  | some (op, how) => do
    moveTo (after.drop op.length)
    space
    let target ← word
    if target.isEmpty then unexpected ""
    else
      let descriptor := ((String.ofList digits).toNat?).getD (standardDescriptor op)
      let target ← if how = .hereDocument then hereDocument (op == "<<-") target else pure target
      pure (some ⟨descriptor, how, target⟩)

def redirects : (fuel : Nat) → Read (List Redirect)
  | 0 => pure []
  | n + 1 => do
    space
    match ← redirect? with
    | some r => do return r :: (← redirects n)
    | none => pure []

def assignment? : Word → Option Assignment
  | .literal false s :: ps =>
    match s.takeWhile Text.isWord, s.dropWhile Text.isWord with
    | c :: name, '=' :: value =>
      if isNameStart c then
        some ⟨c :: name, if value.isEmpty then ps else .literal false value :: ps⟩
      else none
    | _, _ => none
  | _ => none

def simpleFrom : (fuel : Nat) → Simple → Read Simple
  | 0, s => pure s
  | n + 1, s => do
    space
    match ← redirect? with
    | some r => simpleFrom n { s with redirects := s.redirects ++ [r] }
    | none => do
      if isWordEnd (← rest) then pure s
      else
        let w ← word
        match s.words, assignment? w with
        | [], some a => simpleFrom n { s with assignments := s.assignments ++ [a] }
        | _, _ => simpleFrom n { s with words := s.words ++ [w] }

/-- Whether a simple command is only a name, so that parentheses make it a definition. -/
def definedName? (s : Simple) : Option Raw :=
  match s.assignments, s.words, s.redirects with
  | [], [w], [] => w.plain?
  | _, _, _ => none

def separated (c : Command) : Read (Command × Bool) := do
  space
  if (← startsWith ";;") || (← startsWith "&&") then pure (c, false)
  else if ← accept "&" then pure (.background c, true)
  else if ← accept ";" then pure (c, true)
  else pure (c, false)

mutual
def list : (fuel : Nat) → Read (List Command)
  | 0 => pure []
  | n + 1 => do
    blankLines (← rest).length
    if ← atListEnd then pure []
    else
      let c ← andOr n
      let (c, more) ← separated c
      if more || (← rest).head? == some '\n' then do return c :: (← list n) else pure [c]

def andOr : (fuel : Nat) → Read Command
  | 0 => unexpected ""
  | n + 1 => do
    let c ← pipeline n
    andOrFrom n c

def andOrFrom : (fuel : Nat) → Command → Read Command
  | 0, c => pure c
  | n + 1, c => do
    space
    if ← accept "&&" then
      blankLines (← rest).length
      let d ← pipeline n
      andOrFrom n (.both c d)
    else if ← accept "||" then
      blankLines (← rest).length
      let d ← pipeline n
      andOrFrom n (.either c d)
    else pure c

def pipeline : (fuel : Nat) → Read Command
  | 0 => unexpected ""
  | n + 1 => do
    let negated ← acceptWord "!"
    let c ← command n
    let cs ← piped n
    if cs.isEmpty && !negated then pure c else pure (.pipeline negated (c :: cs))

def piped : (fuel : Nat) → Read (List Command)
  | 0 => pure []
  | n + 1 => do
    space
    if ← startsWith "||" then pure []
    else if ← accept "|" then
      blankLines (← rest).length
      let c ← command n
      return c :: (← piped n)
    else pure []

def command : (fuel : Nat) → Read Command
  | 0 => unexpected ""
  | n + 1 => do
    space
    let s ← rest
    match reservedAt s with
    | some "if" => do
      moveTo (s.drop 2)
      choice n
    | some "while" => do
      moveTo (s.drop 5)
      loop n false
    | some "until" => do
      moveTo (s.drop 5)
      loop n true
    | some "for" => do
      moveTo (s.drop 3)
      forEach n
    | some "case" => do
      moveTo (s.drop 4)
      cases n
    | some w =>
      if w == "\x7b" then do
        moveTo (s.drop 1)
        let body ← list n
        expectWord "\x7d"
        return .group body (← redirects s.length)
      else unexpected ""
    | none =>
      if ← accept "(" then do
        let body ← list n
        space
        unless ← accept ")" do unexpected ")"
        return .subshell body (← redirects s.length)
      else do
        let line := (← get).line
        let c ← simpleFrom s.length ⟨line, [], [], []⟩
        match definedName? c, ← startsWith "(" with
        | some name, true => do
          let _ ← accept "("
          space
          unless ← accept ")" do unexpected ")"
          blankLines s.length
          return .define name (← command n)
        | _, _ =>
          if c.assignments.isEmpty && c.words.isEmpty && c.redirects.isEmpty then unexpected ""
          else pure (.simple c)

def choice : (fuel : Nat) → Read Command
  | 0 => unexpected ""
  | n + 1 => do
    let condition ← list n
    expectWord "then"
    let body ← list n
    if ← acceptWord "elif" then
      let c ← choice n
      pure (.choose condition body [c] [])
    else do
      let otherwise ← if ← acceptWord "else" then list n else pure []
      expectWord "fi"
      return .choose condition body otherwise (← redirects n)

def doBody : (fuel : Nat) → Read (List Command)
  | 0 => unexpected ""
  | n + 1 => do
    blankLines n
    expectWord "do"
    let body ← list n
    expectWord "done"
    pure body

def loop : (fuel : Nat) → Bool → Read Command
  | 0, _ => unexpected ""
  | n + 1, untilTrue => do
    let condition ← list n
    let body ← doBody n
    return .loop untilTrue condition body (← redirects n)

def forEach : (fuel : Nat) → Read Command
  | 0 => unexpected ""
  | n + 1 => do
    space
    match (← word).plain? with
    | none => fail "Syntax error: Bad for loop variable"
    | some name => do
      unless isName name do fail "Syntax error: Bad for loop variable"
      blankLines n
      let words ← if ← acceptWord "in" then some <$> wordsUpTo n else pure none
      space
      let _ ← accept ";"
      let body ← doBody n
      return .forEach name words body (← redirects n)

def wordsUpTo : (fuel : Nat) → Read (List Word)
  | 0 => pure []
  | n + 1 => do
    space
    if isWordEnd (← rest) then pure []
    else
      let w ← word
      return w :: (← wordsUpTo n)

def cases : (fuel : Nat) → Read Command
  | 0 => unexpected ""
  | n + 1 => do
    space
    let w ← word
    blankLines n
    expectWord "in"
    let arms ← arms n
    return .cases w arms (← redirects n)

def arms : (fuel : Nat) → Read (List (List Word × List Command))
  | 0 => unexpected ""
  | n + 1 => do
    blankLines n
    if ← acceptWord "esac" then pure []
    else
      let _ ← accept "("
      let patterns ← patterns n
      let body ← list n
      space
      if ← accept ";;" then return (patterns, body) :: (← arms n)
      else
        blankLines n
        unless ← acceptWord "esac" do unexpected ";;"
        pure [(patterns, body)]

def patterns : (fuel : Nat) → Read (List Word)
  | 0 => unexpected ""
  | n + 1 => do
    space
    let w ← word
    if w.isEmpty then unexpected (if (← rest).isEmpty then ")" else "")
    else
      space
      if ← accept "|" then return w :: (← patterns n)
      else if ← accept ")" then pure [w]
      else unexpected ")"
end

def fuelFor (s : Raw) : Nat := 8 * s.length + 16

def lineFrom : (fuel : Nat) → Read (List Command)
  | 0 => pure []
  | n + 1 => do
    let c ← andOr (fuelFor (← rest))
    let (c, more) ← separated c
    space
    match ← rest with
    | [] => pure [c]
    | '\n' :: s => do moveTo s; pure [c]
    | _ => if more then do return c :: (← lineFrom n) else unexpected ""

end Read

def Source.next (s : Source) : Except SyntaxError (Option (List Command × Source)) := do
  let ((), s) ← (Read.blankLines (s.rest.length + 1)).run s
  if s.rest.isEmpty then pure none
  else
    let (cs, s) ← (Read.lineFrom (s.rest.length + 1)).run s
    pure (some (cs, s))

end Workbench.Shell

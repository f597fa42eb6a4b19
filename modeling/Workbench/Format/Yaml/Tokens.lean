import Workbench.Format.Yaml.Token
set_option autoImplicit false

namespace Workbench.Yaml

/-- A place where a key may have begun, with the number of the token that it would start. -/
structure OpenKey where
  required : Bool
  number : Nat
  mark : Mark
  deriving DecidableEq, Repr

structure Lexer where
  place : Place
  queue : List Token
  given : Nat
  indent : Int
  outer : List Int
  keyAllowed : Bool
  /-- The open key of each flow collection around this place and of the block, nearest first. -/
  keys : List (Option OpenKey)
  deriving DecidableEq, Repr

namespace Lexer

def start (text : List Char) : Lexer :=
  let p := Place.start text
  ⟨p, [⟨.streamStart, p.mark, p.mark⟩], 0, -1, [], true, [none]⟩

variable (s : Lexer)

def inFlow : Bool := 1 < s.keys.length

def mark : Mark := s.place.mark

def push (t : Token) : Lexer := { s with queue := s.queue ++ [t] }

def pushHere (kind : TokenKind) : Lexer := s.push ⟨kind, s.mark, s.mark⟩

def insertAt (number : Nat) (t : Token) : Lexer :=
  let n := number - s.given
  { s with queue := s.queue.take n ++ t :: s.queue.drop n }

def pushIndicator (kind : TokenKind) (n : Nat) : Lexer :=
  let after := s.place.skip n
  ({ s with place := after } : Lexer).push ⟨kind, s.mark, after.mark⟩

def fault {α : Type} (problem : Problem) (context : Option (Activity × Mark)) : Read α :=
  s.place.fault problem context

def setKey (k : Option OpenKey) : Lexer := { s with keys := k :: s.keys.tail }

def key? : Option OpenKey := s.keys.head?.join

/-- A key ends on its line and within 1024 characters. -/
def isStale (k : OpenKey) : Bool := k.mark.line < s.mark.line || k.mark.index + 1024 < s.mark.index

/-- Gives up keys that can no longer be; the outermost required one is missed. -/
def dropStale : Read Lexer :=
  match s.keys.reverse.filterMap id |>.find? (fun k => s.isStale k && k.required) with
  | some k => s.fault .noColon (some (.simpleKey, k.mark))
  | none => .ok { s with keys := s.keys.map fun k => k.filter fun k => !s.isStale k }

def dropKey : Read Lexer :=
  match s.key? with
  | some k => if k.required then s.fault .noColon (some (.simpleKey, k.mark)) else .ok (s.setKey none)
  | none => .ok s

def openKey : Read Lexer :=
  if s.keyAllowed then do
    let k : OpenKey :=
      ⟨!s.inFlow && s.indent == (s.place.column : Int), s.given + s.queue.length, s.mark⟩
    let s ← s.dropKey
    pure (s.setKey (some k))
  else .ok s

def indentTo (column : Nat) (place : Option Nat) (kind : TokenKind) (mark : Mark) : Lexer :=
  if s.inFlow || (column : Int) ≤ s.indent then s
  else
    let deeper := { s with outer := s.indent :: s.outer, indent := column }
    let t : Token := ⟨kind, mark, mark⟩
    match place with
    | none => deeper.push t
    | some n => deeper.insertAt n t

def closeBlocks (column : Int) : List Int → Lexer → Lexer
  | [], s => s
  | i :: is, s =>
    if column < s.indent then
      closeBlocks column is { s.pushHere .blockEnd with indent := i, outer := is }
    else s

def dedentTo (column : Int) : Lexer := if s.inFlow then s else closeBlocks column s.outer s

/-- Passes over blanks, comments and line ends. A tab is a blank only where it cannot indent. -/
def skipToToken : Nat → Lexer → Lexer
  | 0, s => s
  | fuel + 1, s =>
    let p := s.place
    let p := if p.mark.index = 0 && p.sees '\ufeff' then p.skip 1 else p
    let tabs := s.inFlow || !s.keyAllowed
    let p := (p.skipWhile fun c => c == ' ' || (tabs && c == '\t')).skipComment
    if p.atBreak then
      skipToToken fuel { s with place := p.skipBreak, keyAllowed := s.keyAllowed || !s.inFlow }
    else { s with place := p }

def endBlocks : Read Lexer := do
  let s ← (s.dedentTo (-1)).dropKey
  pure { s with keyAllowed := false }

def readStreamEnd : Read Lexer := do
  let m := s.mark
  let p := if m.column = 0 then s.place else { s.place with mark := ⟨m.index, m.line + 1, 0⟩ }
  let s ← ({ s with place := p } : Lexer).endBlocks
  pure (s.pushHere .streamEnd)

def readDirective : Read Lexer := do
  let s ← s.endBlocks
  let (t, p) ← Yaml.readDirective s.place
  pure (({ s with place := p } : Lexer).push t)

def readDocumentMark (kind : TokenKind) : Read Lexer := do
  let s ← s.endBlocks
  pure (s.pushIndicator kind 3)

def openFlow (kind : TokenKind) : Read Lexer := do
  let s ← s.openKey
  pure (({ s with keys := none :: s.keys, keyAllowed := true } : Lexer).pushIndicator kind 1)

def closeFlow (kind : TokenKind) : Read Lexer := do
  let s ← s.dropKey
  let keys := if s.inFlow then s.keys.tail else s.keys
  pure (({ s with keys := keys, keyAllowed := false } : Lexer).pushIndicator kind 1)

def readFlowEntry : Read Lexer := do
  let s ← s.dropKey
  pure (({ s with keyAllowed := true } : Lexer).pushIndicator .flowEntry 1)

def beginBlock (kind : TokenKind) (outOfPlace : Problem) : Read Lexer :=
  if s.inFlow then .ok s
  else if !s.keyAllowed then s.fault outOfPlace none
  else .ok (s.indentTo s.place.column none kind s.mark)

def readBlockEntry : Read Lexer := do
  let s ← s.beginBlock .blockSequenceStart .entryOutOfPlace
  let s ← s.dropKey
  pure (({ s with keyAllowed := true } : Lexer).pushIndicator .blockEntry 1)

def readKey : Read Lexer := do
  let s ← s.beginBlock .blockMappingStart .keyOutOfPlace
  let s ← s.dropKey
  pure (({ s with keyAllowed := !s.inFlow } : Lexer).pushIndicator .key 1)

def readValue : Read Lexer :=
  match s.key? with
  | some k =>
    let s := s.insertAt k.number ⟨.key, k.mark, s.mark⟩
    let s := (s.indentTo k.mark.column (some k.number) .blockMappingStart k.mark).setKey none
    .ok (({ s with keyAllowed := false } : Lexer).pushIndicator .value 1)
  | none => do
    let s ← s.beginBlock .blockMappingStart .valueOutOfPlace
    pure (({ s with keyAllowed := !s.inFlow } : Lexer).pushIndicator .value 1)

def readKeyable (read : Place → Read (TokenKind × Place)) : Read Lexer := do
  let s ← s.openKey
  let (kind, p) ← read s.place
  pure (({ s with place := p, keyAllowed := false } : Lexer).push ⟨kind, s.mark, p.mark⟩)

def readPlainScalar : Read Lexer := do
  let s ← s.openKey
  let (x, p) ← readPlain s.inFlow s.indent s.place
  pure (({ s with place := p, keyAllowed := x.broken } : Lexer).push
    ⟨.scalar x.text .plain, s.mark, x.stop⟩)

def readBlockScalar (folds : Bool) : Read Lexer := do
  let s ← s.dropKey
  let (x, p) ← readBlock folds s.indent s.place
  pure (({ s with place := p, keyAllowed := true } : Lexer).push
    ⟨.scalar x (if folds then .folded else .literal), s.mark, p.mark⟩)

def readQuotedScalar (quote : Char) (style : ScalarStyle) : Read Lexer :=
  s.readKeyable fun p => do
    let (x, p) ← readQuoted quote p
    pure (.scalar x style, p)

def mayStartPlain : Bool :=
  match s.place.rest with
  | [] => false
  | c :: _ =>
    if c == '-' then !(s.place.at? 1).any Text.isSpaceOrTab
    else if c == '?' || c == ':' then !s.inFlow && !s.place.openAt 1
    else !(Text.isSpaceOrTab c || isBreak c ||
      [',', '[', ']', '\x7b', '\x7d', '#', '&', '*', '!', '|', '>', '\'', '"', '%', '@', '`'].contains c)

/-- Reads the next token, and with it those that its column ends or begins. -/
def readToken : Read Lexer := do
  let s ← (skipToToken (s.place.rest.length + 1) s).dropStale
  let s := s.dedentTo s.place.column
  let p := s.place
  match p.rest with
  | [] => s.readStreamEnd
  | c :: _ =>
    if p.column = 0 && c == '%' then s.readDirective
    else if p.atDocumentMark then
      s.readDocumentMark (if c == '-' then .documentStart else .documentEnd)
    else if c == '[' then s.openFlow .flowSequenceStart
    else if c == '\x7b' then s.openFlow .flowMappingStart
    else if c == ']' then s.closeFlow .flowSequenceEnd
    else if c == '\x7d' then s.closeFlow .flowMappingEnd
    else if c == ',' then s.readFlowEntry
    else if c == '-' && p.openAt 1 then s.readBlockEntry
    else if c == '?' && (s.inFlow || p.openAt 1) then s.readKey
    else if c == ':' && (s.inFlow || p.openAt 1) then s.readValue
    else if c == '*' then s.readKeyable fun p => do
      let (n, p) ← readName .alias p
      pure (.alias n, p)
    else if c == '&' then s.readKeyable fun p => do
      let (n, p) ← readName .anchor p
      pure (.anchor n, p)
    else if c == '!' then s.readKeyable (readTag s.inFlow)
    else if c == '|' && !s.inFlow then s.readBlockScalar false
    else if c == '>' && !s.inFlow then s.readBlockScalar true
    else if c == '\'' then s.readQuotedScalar '\'' .singleQuoted
    else if c == '"' then s.readQuotedScalar '"' .doubleQuoted
    else if s.mayStartPlain then s.readPlainScalar
    else s.fault .badStart (some (.nextToken, s.mark))

end Lexer

structure Tokens where
  items : List Token
  fault : Option Fault
  deriving DecidableEq, Repr

namespace Tokens

/-- Gives out the queued tokens that no key can be put in front of. -/
def release : List Token → Lexer → List Token × Lexer × Option Fault
  | [], s => ([], s, none)
  | t :: ts, s =>
    match s.dropStale with
    | .error f => ([], s, some f)
    | .ok s =>
      if s.keys.any (fun k => k.any fun k => k.number == s.given) then ([], s, none)
      else
        let (out, s, f) := release ts { s with queue := ts, given := s.given + 1 }
        (t :: out, s, f)

def collect : Nat → List (List Token) → Lexer → Tokens
  | 0, acc, _ => ⟨acc.reverse.flatten, none⟩
  | fuel + 1, acc, s =>
    let (out, s, f) := release s.queue s
    let acc := out :: acc
    match f with
    | some f => ⟨acc.reverse.flatten, some f⟩
    | none =>
      if out.getLast?.any (fun t => t.kind == .streamEnd) then ⟨acc.reverse.flatten, none⟩
      else match s.readToken with
        | .error f => ⟨acc.reverse.flatten, some f⟩
        | .ok s => collect fuel acc s

/-- Every reading but the last passes over a character. A byte order mark in front is no text. -/
def ofText (text : List Char) : Tokens :=
  match findDisallowed 0 text with
  | some n => ⟨[], some ⟨.controlCharacter, Mark.start, n, none⟩⟩
  | none =>
    let text := match text with
      | '\ufeff' :: r => r
      | r => r
    collect (text.length + 3) [] (Lexer.start text)

end Tokens
end Workbench.Yaml

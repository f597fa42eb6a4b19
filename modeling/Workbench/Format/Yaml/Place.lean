import Workbench.Text.Ascii
import Workbench.Text.Lines
set_option autoImplicit false

namespace Workbench.Yaml

/-- Lines and columns count from zero. -/
structure Mark where
  index : Nat
  line : Nat
  column : Nat
  deriving DecidableEq, Repr

namespace Mark

def start : Mark := ⟨0, 0, 0⟩

def isFirst (m : Mark) : Bool := m.line == 0 && m.column == 0

def sameSpot (m n : Mark) : Bool := m.line == n.line && m.column == n.column

/-- The very first place is not told. -/
def note (m : Mark) : String :=
  if m.isFirst then "" else s!" at line {m.line + 1} column {m.column + 1}"

end Mark

inductive Activity where
  | nextToken | simpleKey
  | directive | versionDirective | tagDirective | tagHandleDirective | tagHandleEnd
  | tagDirectiveUri | tagUri | anchor | alias | tag
  | blockScalar | quotedScalar | escape | plainScalar
  | blockNode | flowNode | node | blockCollection | blockMapping | flowSequence | flowMapping
  deriving DecidableEq, Repr

def Activity.text : Activity → String
  | .nextToken => "while scanning for the next token"
  | .simpleKey => "while scanning a simple key"
  | .directive => "while scanning a directive"
  | .versionDirective => "while scanning a %YAML directive"
  | .tagDirective => "while scanning a %TAG directive"
  | .tagHandleDirective => "while scanning a tag directive"
  | .tagHandleEnd => "while parsing a tag directive"
  | .tagDirectiveUri => "while parsing a %TAG directive"
  | .tagUri => "while parsing a tag"
  | .anchor => "while scanning an anchor"
  | .alias => "while scanning an alias"
  | .tag => "while scanning a tag"
  | .blockScalar => "while scanning a block scalar"
  | .quotedScalar => "while scanning a quoted scalar"
  | .escape => "while parsing a quoted scalar"
  | .plainScalar => "while scanning a plain scalar"
  | .blockNode => "while parsing a block node"
  | .flowNode => "while parsing a flow node"
  | .node => "while parsing a node"
  | .blockCollection => "while parsing a block collection"
  | .blockMapping => "while parsing a block mapping"
  | .flowSequence => "while parsing a flow sequence"
  | .flowMapping => "while parsing a flow mapping"

inductive Problem where
  | controlCharacter | badStart | noColon
  | entryOutOfPlace | keyOutOfPlace | valueOutOfPlace
  | unknownDirective | noDirectiveName | badDirectiveName | noLineEnd
  | longVersion | noVersion | noVersionPoint | noBlank | noBlankOrLineEnd
  | noAnchorName | noTagClose | noTagMark | noTagUri
  | noOctet | badLeadingOctet | badTrailingOctet
  | zeroIndent | tabIndent | tabPlain
  | documentMark | endOfStream | unknownEscape | noHex | badCodePoint | colonInFlow
  | noDocumentStart | duplicateVersion | badVersion | duplicateTagDirective | unknownHandle
  | noNode | noDash | noKey | noSequenceSeparator | noMappingSeparator
  deriving DecidableEq, Repr

def Problem.text : Problem → String
  | .controlCharacter => "control characters are not allowed"
  | .badStart => "found character that cannot start any token"
  | .noColon => "could not find expected ':'"
  | .entryOutOfPlace => "block sequence entries are not allowed in this context"
  | .keyOutOfPlace => "mapping keys are not allowed in this context"
  | .valueOutOfPlace => "mapping values are not allowed in this context"
  | .unknownDirective => "found unknown directive name"
  | .noDirectiveName => "could not find expected directive name"
  | .badDirectiveName => "found unexpected non-alphabetical character"
  | .noLineEnd => "did not find expected comment or line break"
  | .longVersion => "found extremely long version number"
  | .noVersion => "did not find expected version number"
  | .noVersionPoint => "did not find expected digit or '.' character"
  | .noBlank => "did not find expected whitespace"
  | .noBlankOrLineEnd => "did not find expected whitespace or line break"
  | .noAnchorName => "did not find expected alphabetic or numeric character"
  | .noTagClose => "did not find the expected '>'"
  | .noTagMark => "did not find expected '!'"
  | .noTagUri => "did not find expected tag URI"
  | .noOctet => "did not find URI escaped octet"
  | .badLeadingOctet => "found an incorrect leading UTF-8 octet"
  | .badTrailingOctet => "found an incorrect trailing UTF-8 octet"
  | .zeroIndent => "found an indentation indicator equal to 0"
  | .tabIndent => "found a tab character where an indentation space is expected"
  | .tabPlain => "found a tab character that violates indentation"
  | .documentMark => "found unexpected document indicator"
  | .endOfStream => "found unexpected end of stream"
  | .unknownEscape => "found unknown escape character"
  | .noHex => "did not find expected hexdecimal number"
  | .badCodePoint => "found invalid Unicode character escape code"
  | .colonInFlow => "found unexpected ':'"
  | .noDocumentStart => "did not find expected <document start>"
  | .duplicateVersion => "found duplicate %YAML directive"
  | .badVersion => "found incompatible YAML document"
  | .duplicateTagDirective => "found duplicate %TAG directive"
  | .unknownHandle => "found undefined tag handle"
  | .noNode => "did not find expected node content"
  | .noDash => "did not find expected '-' indicator"
  | .noKey => "did not find expected key"
  | .noSequenceSeparator => "did not find expected ',' or ']'"
  | .noMappingSeparator => "did not find expected ',' or '\x7d'"

/-- A fault of form. `offset` is told instead of the mark where no mark is known yet. -/
structure Fault where
  problem : Problem
  mark : Mark
  offset : Nat
  context : Option (Activity × Mark)
  deriving DecidableEq, Repr

def Fault.message (f : Fault) : String :=
  let spot :=
    if !f.mark.isFirst then f.mark.note
    else if f.offset ≠ 0 then s!" at position {f.offset}" else ""
  let context := match f.context with
    | none => ""
    | some (a, m) => ", " ++ a.text ++ (if m.sameSpot f.mark then "" else m.note)
  f.problem.text ++ spot ++ context

def isBreak (c : Char) : Bool :=
  c == '\n' || c == '\r' || c.toNat == 0x85 || c.toNat == 0x2028 || c.toNat == 0x2029

def isWordChar (c : Char) : Bool := c.isAlphanum || c == '_' || c == '-'

def isAllowed (c : Char) : Bool :=
  let n := c.toNat
  n == 9 || n == 10 || n == 13 || (0x20 ≤ n && n ≤ 0x7E) || n == 0x85 ||
    (0xA0 ≤ n && n ≤ 0xD7FF) || (0xE000 ≤ n && n ≤ 0xFFFD) || 0x10000 ≤ n

def findDisallowed : Nat → List Char → Option Nat
  | _, [] => none
  | n, c :: cs => if isAllowed c then findDisallowed (n + c.utf8Size) cs else some n

structure Place where
  mark : Mark
  rest : List Char
  deriving DecidableEq, Repr

namespace Place

def start (text : List Char) : Place := ⟨Mark.start, text⟩

def column (p : Place) : Nat := p.mark.column

def at? (p : Place) (n : Nat) : Option Char := p.rest[n]?

def sees (p : Place) (c : Char) : Bool := p.rest.head? == some c

def seesAt (p : Place) (n : Nat) (c : Char) : Bool := p.at? n == some c

def seesAny (p : Place) (cs : List Char) : Bool := p.rest.head?.any cs.contains

def atEnd (p : Place) : Bool := p.rest.isEmpty

def atBreak (p : Place) : Bool := p.rest.head?.any isBreak

def atGap (p : Place) : Bool := p.rest.head?.any Text.isSpaceOrTab

def atBreakOrEnd (p : Place) : Bool := p.rest.head?.all isBreak

/-- A blank, a line end or the end of the text, `n` characters on. -/
def openAt (p : Place) (n : Nat) : Bool := (p.at? n).all fun c => Text.isSpaceOrTab c || isBreak c

def isOpen (p : Place) : Bool := p.openAt 0

def skip (p : Place) (n : Nat) : Place :=
  ⟨⟨p.mark.index + n, p.mark.line, p.mark.column + n⟩, p.rest.drop n⟩

def takeWhile (p : Place) (wanted : Char → Bool) : List Char × Place :=
  let run := p.rest.takeWhile wanted
  (run, p.skip run.length)

def skipWhile (p : Place) (wanted : Char → Bool) : Place := (p.takeWhile wanted).2

def readBreak (p : Place) : List Char × Place :=
  let next (n : Nat) (rest : List Char) : Place := ⟨⟨p.mark.index + n, p.mark.line + 1, 0⟩, rest⟩
  match p.rest with
  | '\r' :: '\n' :: r => (['\n'], next 2 r)
  | c :: r =>
    if c == '\n' || c == '\r' || c.toNat == 0x85 then (['\n'], next 1 r)
    else if isBreak c then ([c], next 1 r)
    else ([], p)
  | [] => ([], p)

def skipBreak (p : Place) : Place := p.readBreak.2

def skipGaps (p : Place) : Place := p.skipWhile Text.isSpaceOrTab

def skipComment (p : Place) : Place :=
  if p.sees '#' then p.skipWhile (fun c => !isBreak c) else p

def atDocumentMark (p : Place) : Bool :=
  p.column == 0 && (['-', '-', '-'].isPrefixOf p.rest || ['.', '.', '.'].isPrefixOf p.rest) &&
    p.openAt 3

def fault {α : Type} (p : Place) (problem : Problem) (context : Option (Activity × Mark)) :
    Except Fault α :=
  .error ⟨problem, p.mark, 0, context⟩

end Place
end Workbench.Yaml

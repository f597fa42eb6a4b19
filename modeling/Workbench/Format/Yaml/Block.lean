import Workbench.Format.Yaml.Scalar
import Workbench.Format.Yaml.Token
import Workbench.Json.Printer
set_option autoImplicit false

namespace Workbench.Yaml

structure Sheet where
  reversed : List Char
  column : Nat
  /-- The last thing written keeps the next one apart. -/
  spaced : Bool
  indented : Bool

namespace Sheet

def empty : Sheet := ⟨[], 0, true, true⟩

def put (s : Sheet) (c : Char) : Sheet :=
  { s with reversed := c :: s.reversed, column := s.column + 1 }

def write (s : Sheet) (cs : List Char) : Sheet := cs.foldl put s

def breakLine (s : Sheet) (c : Char) : Sheet := { s with reversed := c :: s.reversed, column := 0 }

def indentTo (s : Sheet) (n : Nat) : Sheet :=
  let s := if !s.indented || n < s.column || (s.column = n && !s.spaced) then s.breakLine '\n' else s
  let s := s.write (List.replicate (n - s.column) ' ')
  { s with spaced := true, indented := true }

def indicator (s : Sheet) (cs : List Char) (apart spaced indents : Bool) : Sheet :=
  let s := if apart && !s.spaced then s.put ' ' else s
  let s := s.write cs
  { s with spaced := spaced, indented := s.indented && indents }

def word (s : Sheet) : Sheet := { s with spaced := false, indented := false }

end Sheet

def isPrintable (c : Char) : Bool :=
  let n := c.toNat
  n == 10 || (0x20 ≤ n && n ≤ 0x7E) || n == 0x85 || (0xA0 ≤ n && n ≤ 0xD7FF) ||
    (0xE000 ≤ n && n ≤ 0xFFFD && n ≠ 0xFEFF) || 0x10000 ≤ n

def booleanWords : List String :=
  ["y", "Y", "yes", "Yes", "YES", "n", "N", "no", "No", "NO", "true", "True", "TRUE", "false",
    "False", "FALSE", "on", "On", "ON", "off", "Off", "OFF"]

/-- Text that some reader might take for another kind of scalar. -/
def isAmbiguous (s : List Char) : Bool :=
  let l := Text.lower s
  Scalar.ofPlain s != .text || booleanWords.contains (String.ofList s) ||
    (Scalar.bool? l).isSome || Scalar.isNullWord l ||
    match s with
    | [] => true
    | c :: _ => c.isDigit || c == '-' || c == '.' || c == '+'

def startIndicators : List Char :=
  ['#', ',', '[', ']', '\x7b', '\x7d', '&', '*', '!', '|', '>', '\'', '"', '%', '@', '`']

def isSpaceOrBreak (c : Option Char) : Bool := c.all fun c => Text.isSpaceOrTab c || isBreak c

def hasIndicator : Option Char → List Char → Bool
  | _, [] => false
  | before, c :: cs =>
    (c == ':' && isSpaceOrBreak cs.head?) || (c == '#' && isSpaceOrBreak before) ||
      hasIndicator (some c) cs

def hasBlockIndicator (s : List Char) : Bool :=
  match s with
  | [] => false
  | c :: cs =>
    ['-', '-', '-'].isPrefixOf s || ['.', '.', '.'].isPrefixOf s || startIndicators.contains c ||
      ((c == '?' || c == ':' || c == '-') && isSpaceOrBreak cs.head?) || hasIndicator (some c) cs

def hasPair (p : Char → Char → Bool) : List Char → Bool
  | a :: b :: r => p a b || hasPair p (b :: r)
  | _ => false

structure Traits where
  multiline : Bool
  plainOk : Bool
  singleOk : Bool
  blockOk : Bool
  deriving DecidableEq, Repr

def traits (s : List Char) : Traits :=
  if s.isEmpty then ⟨false, true, true, false⟩
  else
    let edge (c : Option Char) : Bool := c.any fun c => c == ' ' || isBreak c
    let breaks := s.any isBreak
    let special := s.any (fun c => !isPrintable c) || hasPair (fun a b => a == ' ' && isBreak b) s
    let breakSpace := hasPair (fun a b => isBreak a && b == ' ') s
    { multiline := breaks
      plainOk := !(edge s.head? || edge s.getLast? || breaks || special || hasBlockIndicator s)
      singleOk := !(breakSpace || special)
      blockOk := !(s.getLast? == some ' ' || special) }

/-- `key` says that the text is a key on its own line. -/
def styleOf (key : Bool) (s : List Char) : ScalarStyle :=
  let t := traits s
  let wanted : ScalarStyle :=
    if booleanWords.contains (String.ofList s) then .singleQuoted
    else if s.contains '\n' then .literal
    else if isAmbiguous s then .singleQuoted else .plain
  let wanted := if key && t.multiline then .doubleQuoted else wanted
  let wanted :=
    if wanted = .plain && (!t.plainOk || (s.isEmpty && key)) then .singleQuoted
    else wanted
  if wanted = .singleQuoted && !t.singleOk then .doubleQuoted
  else if wanted = .literal && (!t.blockOk || key) then .doubleQuoted
  else wanted

def upperHex (width n : Nat) : List Char :=
  let ds := (Nat.toDigits 16 n).map Char.toUpper
  List.replicate (width - ds.length) '0' ++ ds

def doubleQuotedChar (c : Char) : List Char :=
  let n := c.toNat
  if c == '"' then ['\\', '"'] else if c == '\\' then ['\\', '\\']
  else if isPrintable c && !isBreak c then [c]
  else match n with
    | 0 => ['\\', '0'] | 7 => ['\\', 'a'] | 8 => ['\\', 'b'] | 9 => ['\\', 't'] | 10 => ['\\', 'n']
    | 11 => ['\\', 'v'] | 12 => ['\\', 'f'] | 13 => ['\\', 'r'] | 27 => ['\\', 'e']
    | 0x85 => ['\\', 'N'] | 0xA0 => ['\\', '_'] | 0x2028 => ['\\', 'L'] | 0x2029 => ['\\', 'P']
    | n =>
      if n ≤ 0xFF then ['\\', 'x'] ++ upperHex 2 n
      else if n ≤ 0xFFFF then ['\\', 'u'] ++ upperHex 4 n
      else ['\\', 'U'] ++ upperHex 8 n

namespace Sheet

/-- Quoted text with line ends of its own: the lines are set apart by an empty one. -/
def singleQuotedBody (indent : Nat) : Bool → List Char → Sheet → Sheet
  | _, [], s => s
  | broken, c :: cs, s =>
    if isBreak c then
      let s := if !broken && c == '\n' then s.breakLine '\n' else s
      singleQuotedBody indent true cs { s.breakLine c with indented := true }
    else
      let s := if broken then s.indentTo indent else s
      let s := s.write (if c == '\'' then ['\'', '\''] else [c])
      singleQuotedBody indent false cs (if c == ' ' then s else { s with indented := false })

def singleQuoted (s : Sheet) (indent : Nat) (text : List Char) : Sheet :=
  let s := s.indicator ['\''] true false false
  ((singleQuotedBody indent false text s).indicator ['\''] false false false).word

def doubleQuoted (s : Sheet) (text : List Char) : Sheet :=
  let s := s.indicator ['"'] true false false
  ((s.write (text.flatMap doubleQuotedChar)).indicator ['"'] false false false).word

def plain (s : Sheet) (text : List Char) : Sheet :=
  let s := if !s.spaced && !text.isEmpty then s.put ' ' else s
  (s.write text).word

def literalBody (indent : Nat) : Bool → List Char → Sheet → Sheet
  | _, [], s => s
  | broken, c :: cs, s =>
    if isBreak c then literalBody indent true cs { s.breakLine c with indented := true }
    else
      let s := if broken then s.indentTo indent else s
      literalBody indent false cs { s.put c with indented := false }

def chompMark (text : List Char) : List Char :=
  match text.reverse with
  | [] => ['-']
  | [c] => if isBreak c then ['+'] else ['-']
  | c :: d :: _ => if isBreak c then (if isBreak d then ['+'] else []) else ['-']

def literal (s : Sheet) (indent : Nat) (text : List Char) : Sheet :=
  let s := s.indicator ['|'] true false false
  let s := if text.head?.any (fun c => c == ' ' || isBreak c) then s.write ['2'] else s
  let s := (s.write (chompMark text)).breakLine '\n'
  literalBody indent true text { s with spaced := true, indented := true }

/-- `indent` is that of the lines of the text, one step deeper than the collection around it. -/
def string (s : Sheet) (key : Bool) (indent : Nat) (text : List Char) : Sheet :=
  match styleOf key text with
  | .plain | .folded => s.plain text
  | .singleQuoted => s.singleQuoted indent text
  | .doubleQuoted => s.doubleQuoted text
  | .literal => s.literal indent text

def isTagChar (c : Char) : Bool :=
  isWordChar c || [';', '/', '?', ':', '@', '&', '=', '+', '$', ',', '.', '~', '*', '\'', '(', ')',
    '[', ']'].contains c

def tagText (tag : String) : List Char :=
  tag.toList.flatMap fun c =>
    if isTagChar c then [c]
    else (Utf8.encodeChar c).flatMap fun b => '%' :: upperHex 2 b.toNat

def tag (s : Sheet) (t : String) : Sheet :=
  let body := if t == "!" then "!<".toList ++ tagText t ++ ['>'] else '!' :: tagText t
  s.indicator body true false false

end Sheet

/-- Whether a value may be a key without a mark: a short scalar of one line, or empty. -/
def Node.isSimpleKey (tagSize : Nat) : Node → Bool
  | .string s => !(s.toList.any isBreak) && s.utf8ByteSize + tagSize ≤ 128
  | .sequence (_ :: _) | .mapping (_ :: _) => false
  | .tagged t n => n.isSimpleKey (t.utf8ByteSize + 1)
  | _ => tagSize ≤ 128

/-- The indent of the entries of a collection within `outer`; at the root there is none. -/
def deeper : Option Nat → Nat
  | none => 0
  | some n => n + 2

def scalarIndent : Option Nat → Nat
  | none => 2
  | some n => n + 2

mutual
/-- Writes a value. `value` says that it stands behind a key and `key` that it is one. -/
def writeNode (outer : Option Nat) (value key : Bool) : Node → Sheet → Sheet
  | .null, s => s.plain "null".toList
  | .bool b, s => s.plain (if b then "true" else "false").toList
  | .int n, s => s.plain (Json.intText n)
  | .real r, s => s.plain r.text.toList
  | .string x, s => s.string key (scalarIndent outer) x.toList
  | .sequence [], s => (s.indicator ['['] true true false).indicator [']'] false false false
  | .sequence (x :: xs), s =>
    let indent := if value && !s.indented then outer.getD 0 else deeper outer
    writeItems indent (x :: xs) s
  | .mapping [], s => (s.indicator ['\x7b'] true true false).indicator ['\x7d'] false false false
  | .mapping (e :: es), s => writeEntries (deeper outer) (e :: es) s
  | .tagged t n, s => writeNode outer value key n (s.tag t)

def writeItems (indent : Nat) : List Node → Sheet → Sheet
  | [], s => s
  | x :: xs, s =>
    let s := (s.indentTo indent).indicator ['-'] true false true
    writeItems indent xs (writeNode (some indent) false false x s)

def writeEntries (indent : Nat) : List (Node × Node) → Sheet → Sheet
  | [], s => s
  | (k, v) :: es, s =>
    let s := s.indentTo indent
    let s :=
      if k.isSimpleKey 0 then
        (writeNode (some indent) true true k s).indicator [':'] false false false
      else
        let s := s.indicator ['?'] true false true
        ((writeNode (some indent) true false k s).indentTo indent).indicator
          [':'] true false true
    writeEntries indent es (writeNode (some indent) true false v s)
end

namespace Node

def blockText (n : Node) : String :=
  String.ofList (Text.trim (writeNode none false false n Sheet.empty).reversed.reverse)

def keyText : Node → String
  | .string s => s
  | .null => "null"
  | .bool b => if b then "true" else "false"
  | .int n => String.ofList (Json.intText n)
  | .real r => r.text
  | n => n.blockText

end Node
end Workbench.Yaml

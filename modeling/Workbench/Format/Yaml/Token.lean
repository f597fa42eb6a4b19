import Workbench.Format.Yaml.Place
import Workbench.Text.Utf8
set_option autoImplicit false

namespace Workbench.Yaml

inductive ScalarStyle where
  | plain | singleQuoted | doubleQuoted | literal | folded
  deriving DecidableEq, Repr

/-- Tags are kept as bytes, for an escape may stand for any byte. -/
abbrev TagBytes := List UInt8

inductive TokenKind where
  | streamStart | streamEnd | documentStart | documentEnd
  | version (major minor : Nat)
  | tagDirective (handle : List Char) (stem : TagBytes)
  | blockSequenceStart | blockMappingStart | blockEnd
  | flowSequenceStart | flowSequenceEnd | flowMappingStart | flowMappingEnd
  | blockEntry | flowEntry | key | value
  | alias (name : List Char)
  | anchor (name : List Char)
  | tag (handle : List Char) (suffix : TagBytes)
  | scalar (text : List Char) (style : ScalarStyle)
  deriving DecidableEq, Repr

structure Token where
  kind : TokenKind
  start : Mark
  stop : Mark
  deriving DecidableEq, Repr

abbrev Read := Except Fault

structure Gap where
  blanks : List Char
  firstBreak : List Char
  otherBreaks : List Char
  broken : Bool
  deriving DecidableEq, Repr

namespace Gap

def none : Gap := ⟨[], [], [], false⟩

def escapedBreak : Gap := ⟨[], [], [], true⟩

def text (g : Gap) : List Char :=
  if !g.broken then g.blanks
  else if g.firstBreak.head? == some '\n' then
    if g.otherBreaks.isEmpty then [' '] else g.otherBreaks
  else g.firstBreak ++ g.otherBreaks

/-- Reads on; `tabOk` says where a tab may stand after a line end. -/
def read (tabOk : Place → Bool) : Nat → Gap → Place → Except Place (Gap × Place)
  | 0, g, p => .ok (g, p)
  | fuel + 1, g, p =>
    match p.rest with
    | [] => .ok (g, p)
    | c :: _ =>
      if Text.isSpaceOrTab c then
        if g.broken then
          if c == '\t' && !tabOk p then .error p else read tabOk fuel g (p.skip 1)
        else read tabOk fuel { g with blanks := g.blanks ++ [c] } (p.skip 1)
      else if isBreak c then
        let (b, p') := p.readBreak
        if g.broken then read tabOk fuel { g with otherBreaks := g.otherBreaks ++ b } p'
        else read tabOk fuel ⟨[], b, [], true⟩ p'
      else .ok (g, p)

def readAny (g : Gap) (p : Place) : Gap × Place :=
  match read (fun _ => true) p.rest.length g p with
  | .ok r => r
  | .error p => (g, p)

end Gap

inductive Escape where
  | char (c : Char)
  | code (digits : Nat)
  deriving DecidableEq, Repr

def escape? (c : Char) : Option Escape :=
  match c with
  | '0' => some (.char (Char.ofNat 0))
  | 'a' => some (.char (Char.ofNat 7))
  | 'b' => some (.char (Char.ofNat 8))
  | 't' | '\t' => some (.char '\t')
  | 'n' => some (.char '\n')
  | 'v' => some (.char (Char.ofNat 11))
  | 'f' => some (.char (Char.ofNat 12))
  | 'r' => some (.char '\r')
  | 'e' => some (.char (Char.ofNat 27))
  | ' ' => some (.char ' ')
  | '"' => some (.char '"')
  | '/' => some (.char '/')
  | '\\' => some (.char '\\')
  | 'N' => some (.char (Char.ofNat 0x85))
  | '_' => some (.char (Char.ofNat 0xA0))
  | 'L' => some (.char (Char.ofNat 0x2028))
  | 'P' => some (.char (Char.ofNat 0x2029))
  | 'x' => some (.code 2)
  | 'u' => some (.code 4)
  | 'U' => some (.code 8)
  | _ => none

/-- The character of an escape; the place stands at the backslash. -/
def readEscape (start : Mark) (p : Place) : Read (Char × Place) :=
  match (p.at? 1).bind escape? with
  | none => p.fault .unknownEscape (some (.escape, start))
  | some (.char c) => .ok (c, p.skip 2)
  | some (.code n) =>
    let p := p.skip 2
    let digits := p.rest.take n
    if digits.length < n || !digits.all Text.isHex then p.fault .noHex (some (.escape, start))
    else
      let v := digits.foldl (fun v c => v * 16 + Text.hexValue c) 0
      if (0xD800 ≤ v && v ≤ 0xDFFF) || 0x10FFFF < v then
        p.fault .badCodePoint (some (.escape, start))
      else .ok (Char.ofNat v, p.skip n)

/-- Characters up to a blank, a line end or the closing quote; the gap is the one begun by an
escaped line end. -/
def readQuotedWord (quote : Char) (start : Mark) :
    Nat → List Char → Place → Read ((List Char × Gap) × Place)
  | 0, acc, p => .ok ((acc, Gap.none), p)
  | fuel + 1, acc, p =>
    match p.rest with
    | [] => .ok ((acc, Gap.none), p)
    | c :: r =>
      if Text.isSpaceOrTab c || isBreak c then .ok ((acc, Gap.none), p)
      else if quote == '\'' && c == '\'' && r.head? == some '\'' then
        readQuotedWord quote start fuel ('\'' :: acc) (p.skip 2)
      else if c == quote then .ok ((acc, Gap.none), p)
      else if quote == '"' && c == '\\' then
        if r.head?.any isBreak then .ok ((acc, Gap.escapedBreak), (p.skip 1).skipBreak)
        else do
          let (x, p) ← readEscape start p
          readQuotedWord quote start fuel (x :: acc) p
      else readQuotedWord quote start fuel (c :: acc) (p.skip 1)

def readQuotedRest (quote : Char) (start : Mark) : Nat → List Char → Place → Read (List Char × Place)
  | 0, acc, p => .ok (acc.reverse, p)
  | fuel + 1, acc, p =>
    if p.atDocumentMark then p.fault .documentMark (some (.quotedScalar, start))
    else if p.atEnd then p.fault .endOfStream (some (.quotedScalar, start))
    else do
      let ((acc, gap), p) ← readQuotedWord quote start p.rest.length acc p
      if p.sees quote then .ok (acc.reverse, p.skip 1)
      else
        let (gap, p) := gap.readAny p
        readQuotedRest quote start fuel (gap.text.reverse ++ acc) p

def readQuoted (quote : Char) (p : Place) : Read (List Char × Place) :=
  readQuotedRest quote p.mark (p.rest.length + 2) [] (p.skip 1)

def endsFlowWord (c : Char) : Bool :=
  c == ',' || c == '[' || c == ']' || c == '\x7b' || c == '\x7d'

/-- The characters of a plain scalar up to a gap or its end; `acc` runs backwards. -/
def readPlainWord (inFlow : Bool) (start : Mark) :
    Nat → List Char → Place → Read (List Char × Place)
  | 0, acc, p => .ok (acc, p)
  | fuel + 1, acc, p =>
    match p.rest with
    | [] => .ok (acc, p)
    | c :: r =>
      if Text.isSpaceOrTab c || isBreak c then .ok (acc, p)
      else if inFlow && c == ':' && r.head?.any (fun d => endsFlowWord d || d == '?') then
        p.fault .colonInFlow (some (.plainScalar, start))
      else if (c == ':' && p.openAt 1) || (inFlow && endsFlowWord c) then .ok (acc, p)
      else readPlainWord inFlow start fuel (c :: acc) (p.skip 1)

/-- A plain scalar as read so far; `stop` is behind its last word. -/
structure Plain where
  text : List Char
  stop : Mark
  broken : Bool
  deriving DecidableEq, Repr

def readPlainRest (inFlow : Bool) (indent : Int) (start : Mark) :
    Nat → List Char → Mark → Gap → Place → Read (Plain × Place)
  | 0, acc, stop, g, p => .ok (⟨acc.reverse, stop, g.broken⟩, p)
  | fuel + 1, acc, stop, g, p =>
    if p.atDocumentMark || p.sees '#' then .ok (⟨acc.reverse, stop, g.broken⟩, p)
    else do
      let (word, p) ← readPlainWord inFlow start p.rest.length [] p
      let (acc, stop, g) :=
        if word.isEmpty then (acc, stop, g) else (word ++ g.text.reverse ++ acc, p.mark, Gap.none)
      if !(p.atGap || p.atBreak) then .ok (⟨acc.reverse, stop, g.broken⟩, p)
      else
        match g.read (fun q => indent ≤ (q.column : Int)) p.rest.length p with
        | .error q => q.fault .tabPlain (some (.plainScalar, start))
        | .ok (g, p) =>
          if !inFlow && (p.column : Int) < indent then .ok (⟨acc.reverse, stop, g.broken⟩, p)
          else readPlainRest inFlow indent start fuel acc stop g p

def readPlain (inFlow : Bool) (indent : Int) (p : Place) : Read (Plain × Place) :=
  readPlainRest inFlow (indent + 1) p.mark (p.rest.length + 1) [] p.mark Gap.none p

inductive Chomp where
  | strip | clip | keep
  deriving DecidableEq, Repr

structure BlockHeader where
  chomp : Chomp
  /-- Zero when none is given. -/
  indent : Nat
  deriving DecidableEq, Repr

def chomp? (p : Place) : Option Chomp :=
  if p.sees '+' then some .keep else if p.sees '-' then some .strip else none

def readIndicator (start : Mark) (p : Place) : Read (Nat × Place) :=
  match p.rest with
  | c :: _ =>
    if c == '0' then p.fault .zeroIndent (some (.blockScalar, start))
    else if c.isDigit then .ok (c.toNat - 48, p.skip 1)
    else .ok (0, p)
  | [] => .ok (0, p)

def readHeader (start : Mark) (p : Place) : Read (BlockHeader × Place) := do
  let (h, p) ← match chomp? p with
    | some c => do
      let (n, p) ← readIndicator start (p.skip 1)
      pure (BlockHeader.mk c n, p)
    | none => do
      let (n, q) ← readIndicator start p
      if n = 0 then pure (BlockHeader.mk .clip 0, q)
      else match chomp? q with
        | some c => pure (BlockHeader.mk c n, q.skip 1)
        | none => pure (BlockHeader.mk .clip n, q)
  let p := p.skipGaps.skipComment
  if !p.atBreakOrEnd then p.fault .noLineEnd (some (.blockScalar, start))
  else pure (h, p.skipBreak)

/-- Empty lines before the next line of text. With `indent` zero the deepest of them counts. -/
def readEmptyLines (start : Mark) (indent : Nat) :
    Nat → Nat → List Char → Place → Read ((Nat × List Char) × Place)
  | 0, deepest, acc, p => .ok ((deepest, acc), p)
  | fuel + 1, deepest, acc, p =>
    let blanks := (p.rest.takeWhile (· == ' ')).length
    let p := p.skip (if indent = 0 then blanks else min blanks (indent - p.column))
    let deepest := max deepest p.column
    if (indent = 0 || p.column < indent) && p.sees '\t' then
      p.fault .tabIndent (some (.blockScalar, start))
    else if p.atBreak then
      let (b, p) := p.readBreak
      readEmptyLines start indent fuel deepest (acc ++ b) p
    else .ok ((deepest, acc), p)

def readBreaks (start : Mark) (outer : Int) (indent : Nat) (p : Place) : Read ((Nat × List Char) × Place) := do
  let ((deepest, breaks), p) ← readEmptyLines start indent (p.rest.length + 1) 0 [] p
  let indent := if indent = 0 then max (max deepest (outer + 1).toNat) 1 else indent
  pure ((indent, breaks), p)

/-- The lines of a block scalar. `lastBreak` is the line end before this line and `breaks` the
empty lines between; a folded scalar keeps a line end beside a line that starts with a blank. -/
def readBlockLines (folds : Bool) (start : Mark) (outer : Int) (indent : Nat) :
    Nat → List Char → List Char → List Char → Bool → Place →
      Read ((List Char × List Char × List Char) × Place)
  | 0, acc, lastBreak, breaks, _, p => .ok ((acc, lastBreak, breaks), p)
  | fuel + 1, acc, lastBreak, breaks, indented, p =>
    if p.column ≠ indent || p.atEnd then .ok ((acc, lastBreak, breaks), p)
    else do
      let indentedNow := p.atGap
      let joint :=
        if folds && lastBreak.head? == some '\n' && !indented && !indentedNow then
          if breaks.isEmpty then [' '] else []
        else lastBreak
      let (line, p) := p.takeWhile fun c => !isBreak c
      let (lastBreak', p) := p.readBreak
      let ((_, breaks'), p) ← readBreaks start outer indent p
      readBlockLines folds start outer indent fuel
        (line.reverse ++ breaks.reverse ++ joint.reverse ++ acc) lastBreak' breaks' indentedNow p

def readBlock (folds : Bool) (outer : Int) (p : Place) : Read (List Char × Place) := do
  let start := p.mark
  let (h, p) ← readHeader start (p.skip 1)
  let given := if h.indent = 0 then 0 else if 0 ≤ outer then outer.toNat + h.indent else h.indent
  let ((indent, breaks), p) ← readBreaks start outer given p
  let ((acc, lastBreak, breaks), p) ←
    readBlockLines folds start outer indent (p.rest.length + 1) [] [] breaks false p
  let tail := match h.chomp with
    | .strip => []
    | .clip => lastBreak
    | .keep => lastBreak ++ breaks
  pure (acc.reverse ++ tail, p)

def mayFollowAnchor (p : Place) : Bool :=
  p.isOpen || p.seesAny ['?', ':', ',', ']', '\x7d', '%', '@', '`']

def readName (activity : Activity) (p : Place) : Read (List Char × Place) :=
  let start := p.mark
  let (name, p) := (p.skip 1).takeWhile isWordChar
  if name.isEmpty || !mayFollowAnchor p then p.fault .noAnchorName (some (activity, start))
  else .ok (name, p)

def isUriChar (wide : Bool) (c : Char) : Bool :=
  isWordChar c || [';', '/', '?', ':', '@', '&', '=', '+', '$', '.', '!', '~', '*', '\'', '(', ')'].contains c
    || (wide && (c == ',' || c == '[' || c == ']'))

def octetWidth (n : Nat) : Nat :=
  if n < 0x80 then 1 else if 0xC0 ≤ n && n < 0xE0 then 2
  else if 0xE0 ≤ n && n < 0xF0 then 3 else if 0xF0 ≤ n && n < 0xF8 then 4 else 0

def readOctet (context : Option (Activity × Mark)) (p : Place) : Read (Nat × Place) :=
  match p.rest with
  | '%' :: a :: b :: _ =>
    if Text.isHex a && Text.isHex b then .ok (Text.hexValue a * 16 + Text.hexValue b, p.skip 3)
    else p.fault .noOctet context
  | _ => p.fault .noOctet context

def readTrailing (context : Option (Activity × Mark)) : Nat → Place → Read (TagBytes × Place)
  | 0, p => .ok ([], p)
  | n + 1, p => do
    let (o, q) ← readOctet context p
    if o < 0x80 || 0xC0 ≤ o then p.fault .badTrailingOctet context
    else
      let (os, q) ← readTrailing context n q
      pure (UInt8.ofNat o :: os, q)

def readOctets (context : Option (Activity × Mark)) (p : Place) : Read (TagBytes × Place) := do
  let (o, q) ← readOctet context p
  match octetWidth o with
  | 0 => p.fault .badLeadingOctet context
  | w + 1 =>
    let (os, q) ← readTrailing context w q
    pure (UInt8.ofNat o :: os, q)

def readUriChars (wide : Bool) (context : Option (Activity × Mark)) :
    Nat → TagBytes → Place → Read (TagBytes × Place)
  | 0, acc, p => .ok (acc, p)
  | fuel + 1, acc, p =>
    match p.rest with
    | [] => .ok (acc, p)
    | c :: _ =>
      if c == '%' then do
        let (os, p) ← readOctets context p
        readUriChars wide context fuel (acc ++ os) p
      else if isUriChar wide c then
        readUriChars wide context fuel (acc ++ Utf8.encodeChar c) (p.skip 1)
      else .ok (acc, p)

/-- A tag's text. `head` was read already; without a head the text may not be empty. -/
def readUri (wide : Bool) (activity : Activity) (start : Mark) (head : Option (List Char))
    (p : Place) : Read (TagBytes × Place) := do
  let context := some (activity, start)
  let (bytes, q) ← readUriChars wide context p.rest.length [] p
  if head.isNone && bytes.isEmpty then q.fault .noTagUri context
  else pure (Utf8.encode ((head.getD []).drop 1) ++ bytes, q)

/-- `!`, `!!` or `!name!`; outside a directive also `!name`, which is no handle yet. -/
def readHandle (inDirective : Bool) (start : Mark) (p : Place) : Read (List Char × Place) :=
  if !p.sees '!' then
    p.fault .noTagMark (some (if inDirective then .tagHandleDirective else .tag, start))
  else
    let (name, p) := (p.skip 1).takeWhile isWordChar
    if p.sees '!' then .ok ('!' :: name ++ ['!'], p.skip 1)
    else if inDirective && !name.isEmpty then p.fault .noTagMark (some (.tagHandleEnd, start))
    else .ok ('!' :: name, p)

def readTagParts (p : Place) : Read ((List Char × TagBytes) × Place) :=
  let start := p.mark
  if p.seesAt 1 '<' then do
    let (suffix, p) ← readUri true .tagUri start none (p.skip 2)
    if p.sees '>' then pure (([], suffix), p.skip 1)
    else p.fault .noTagClose (some (.tag, start))
  else do
    let (handle, p) ← readHandle false start p
    if 1 < handle.length && handle.getLast? == some '!' then
      let (suffix, p) ← readUri false .tagUri start none p
      pure ((handle, suffix), p)
    else
      let (suffix, p) ← readUri false .tagUri start (some handle) p
      if suffix.isEmpty then pure (([], Utf8.encode ['!']), p)
      else pure ((['!'], suffix), p)

def readTag (inFlow : Bool) (p : Place) : Read (TokenKind × Place) := do
  let ((handle, suffix), q) ← readTagParts p
  if q.isOpen || (inFlow && q.sees ',') then pure (.tag handle suffix, q)
  else q.fault .noBlankOrLineEnd (some (.tag, p.mark))

def readVersionNumber (start : Mark) (p : Place) : Read (Nat × Place) :=
  let context := some (Activity.versionDirective, start)
  let (digits, q) := p.takeWhile Char.isDigit
  if 9 < digits.length then (p.skip 9).fault .longVersion context
  else if digits.isEmpty then q.fault .noVersion context
  else .ok (digits.foldl (fun n c => n * 10 + (c.toNat - 48)) 0, q)

def readVersion (start : Mark) (p : Place) : Read (TokenKind × Place) := do
  let (major, p) ← readVersionNumber start p.skipGaps
  if !p.sees '.' then p.fault .noVersionPoint (some (.versionDirective, start))
  else
    let (minor, p) ← readVersionNumber start (p.skip 1)
    pure (.version major minor, p)

def readTagDirective (start : Mark) (p : Place) : Read (TokenKind × Place) := do
  let (handle, p) ← readHandle true start p.skipGaps
  if !p.atGap then p.fault .noBlank (some (.tagDirective, start))
  else
    let (stem, p) ← readUri true .tagDirectiveUri start none p.skipGaps
    if p.isOpen then pure (.tagDirective handle stem, p)
    else p.fault .noBlankOrLineEnd (some (.tagDirective, start))

/-- A directive with the rest of its line; its own end is before a comment. -/
def readDirective (p : Place) : Read (Token × Place) := do
  let start := p.mark
  let context := some (Activity.directive, start)
  let (name, p) := (p.skip 1).takeWhile isWordChar
  if name.isEmpty then p.fault .noDirectiveName context
  else if !p.isOpen then p.fault .badDirectiveName context
  else
    let (kind, p) ←
      if name = ['Y', 'A', 'M', 'L'] then readVersion start p
      else if name = ['T', 'A', 'G'] then readTagDirective start p
      else p.fault .unknownDirective context
    let stop := p.mark
    let p := p.skipGaps.skipComment
    if p.atBreakOrEnd then pure (⟨kind, start, stop⟩, p.skipBreak)
    else p.fault .noLineEnd context

end Workbench.Yaml

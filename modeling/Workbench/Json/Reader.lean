import Workbench.Json.Basic
import Workbench.Number.Words
import Workbench.Text.Ascii
import Workbench.Text.Cursor
set_option autoImplicit false

/-! Reading JSON text. A text is first read into `Located`, a tree that keeps where each value
stands and ends with the first fault of the text, if it has one; a `Located` tree without a fault
is a value. Positions are byte offsets, and a fault is reported by line and column. -/

namespace Workbench
namespace Json

inductive Fault where
  | eofList | eofObject | eofString | eofValue
  | expectedColon | expectedListEnd | expectedObjectEnd | expectedIdent | expectedValue
  | invalidEscape | invalidNumber | numberRange | controlCharacter | keyNotString
  | loneSurrogate | trailingComma | trailingCharacters | hexEnd | recursionLimit
  deriving DecidableEq, Repr

def Fault.message : Fault → String
  | .eofList => "EOF while parsing a list"
  | .eofObject => "EOF while parsing an object"
  | .eofString => "EOF while parsing a string"
  | .eofValue => "EOF while parsing a value"
  | .expectedColon => "expected `:`"
  | .expectedListEnd => "expected `,` or `]`"
  | .expectedObjectEnd => "expected `,` or `\x7d`"
  | .expectedIdent => "expected ident"
  | .expectedValue => "expected value"
  | .invalidEscape => "invalid escape"
  | .invalidNumber => "invalid number"
  | .numberRange => "number out of range"
  | .controlCharacter => "control character (\\u0000-\\u001F) found while parsing a string"
  | .keyNotString => "key must be a string"
  | .loneSurrogate => "lone leading surrogate in hex escape"
  | .trailingComma => "trailing comma"
  | .trailingCharacters => "trailing characters"
  | .hexEnd => "unexpected end of hex escape"
  | .recursionLimit => "recursion limit exceeded"

structure FaultAt where
  fault : Fault
  offset : Nat
  deriving DecidableEq, Repr

/-- Line and column of a byte offset: both count from one, the column in bytes since the line
began. -/
def lineColumn (text : List Char) (offset : Nat) : Nat × Nat :=
  go text offset 1 0
where
  go : List Char → Nat → Nat → Nat → Nat × Nat
    | [], _, line, column => (line, column)
    | c :: cs, left, line, column =>
      if left = 0 then (line, column)
      else if left < c.utf8Size then (line, column + left)
      else if c == '\n' then go cs (left - 1) (line + 1) 0
      else go cs (left - c.utf8Size) line (column + c.utf8Size)

def positionText (text : List Char) (offset : Nat) : String :=
  let (line, column) := lineColumn text offset
  s!" at line {line} column {column}"

def FaultAt.message (text : List Char) (f : FaultAt) : String :=
  f.fault.message ++ positionText text f.offset

end Json

namespace Cursor

open Json

def atNext (c : Cursor) (f : Fault) : FaultAt := ⟨f, c.peekOffset⟩

def atHere (c : Cursor) (f : Fault) : FaultAt := ⟨f, c.offset⟩

def isSpace (c : Char) : Bool := c == ' ' || c == '\n' || c == '\t' || c == '\r'

def skipSpaceFrom (offset : Nat) : List Char → Cursor
  | [] => ⟨offset, []⟩
  | c :: cs => if isSpace c then skipSpaceFrom (offset + 1) cs else ⟨offset, c :: cs⟩

def skipSpace (c : Cursor) : Cursor := skipSpaceFrom c.offset c.rest

end Cursor

namespace Json

def byteLength (s : List Char) : Nat := s.foldl (fun n c => n + c.utf8Size) 0

/-- Where in a string literal a reader stands. `hex` counts the digits to come; a leading
surrogate waits for its partner in the last three. -/
inductive StringState where
  | plain
  | escape
  | hex (left value : Nat) (lead : Option Nat)
  | wantBackslash (lead : Nat)
  | wantU (lead : Nat)
  deriving DecidableEq, Repr

def simpleEscape? (c : Char) : Option Char :=
  match c with
  | '"' => some '"'
  | '\\' => some '\\'
  | '/' => some '/'
  | 'b' => some '\x08'
  | 'f' => some '\x0c'
  | 'n' => some '\n'
  | 'r' => some '\r'
  | 't' => some '\t'
  | _ => none

def checkHex (offset : Nat) (rest : List Char) : Option FaultAt :=
  let four := rest.take 4
  if byteLength four < 4 then some ⟨.eofString, offset + byteLength rest⟩
  else if four.length == 4 && four.all (fun c => (Text.hexValue? c).isSome) then none
  else some ⟨.invalidEscape, offset + 4⟩

def closeHex (value : Nat) (lead : Option Nat) (offset : Nat) :
    Except FaultAt (Option Char × StringState) :=
  match lead with
  | none =>
    if 0xDC00 ≤ value ∧ value ≤ 0xDFFF then .error ⟨.loneSurrogate, offset⟩
    else if 0xD800 ≤ value ∧ value ≤ 0xDBFF then .ok (none, .wantBackslash value)
    else .ok (some (Char.ofNat value), .plain)
  | some high =>
    if value < 0xDC00 ∨ 0xDFFF < value then .error ⟨.loneSurrogate, offset⟩
    else .ok (some (Char.ofNat (0x10000 + (high - 0xD800) * 0x400 + (value - 0xDC00))), .plain)

/-- Reads on to the closing quote; `done` is what was read so far, last first. -/
def scanString (state : StringState) (offset : Nat) (done : List Char) :
    List Char → Except FaultAt (List Char × Cursor)
  | [] => .error ⟨.eofString, offset⟩
  | c :: cs =>
    let next := offset + c.utf8Size
    match state with
    | .plain =>
      if c == '"' then .ok (done.reverse, ⟨next, cs⟩)
      else if c == '\\' then scanString .escape next done cs
      else if c.toNat < 32 then .error ⟨.controlCharacter, next⟩
      else scanString .plain next (c :: done) cs
    | .escape =>
      if c == 'u' then
        match checkHex next cs with
        | some f => .error f
        | none => scanString (.hex 4 0 none) next done cs
      else match simpleEscape? c with
        | some x => scanString .plain next (x :: done) cs
        | none => .error ⟨.invalidEscape, offset + 1⟩
    | .hex left value lead =>
      let value := value * 16 + (Text.hexValue? c).getD 0
      if left ≤ 1 then
        match closeHex value lead next with
        | .error f => .error f
        | .ok (some x, s) => scanString s next (x :: done) cs
        | .ok (none, s) => scanString s next done cs
      else scanString (.hex (left - 1) value lead) next done cs
    | .wantBackslash lead =>
      if c == '\\' then scanString (.wantU lead) next done cs
      else .error ⟨.hexEnd, offset + 1⟩
    | .wantU lead =>
      if c == 'u' then
        match checkHex next cs with
        | some f => .error f
        | none => scanString (.hex 4 0 (some lead)) next done cs
      else .error ⟨.hexEnd, offset + 1⟩

/-- Takes digits while the number fits in 64 bits; counts those taken. -/
def takeDigits (n taken : Nat) : List Char → Nat × Nat × List Char
  | [] => (n, taken, [])
  | d :: ds =>
    let m := n * 10 + (d.toNat - 48)
    if m < Words.span 64 then takeDigits m (taken + 1) ds else (n, taken, d :: ds)

/-- `f * 10 ^ e` by one rounded product or by rounded quotients; none when out of range. -/
def scaleByTen : Nat → Double → Int → Option Double
  | 0, f, _ => some f
  | fuel + 1, f, e =>
    if e.natAbs ≤ 308 then
      match Double.ofRatio false (Nat.pow 10 e.natAbs) 1 with
      | none => none
      | some p => if 0 ≤ e then f.mul p else f.div p
    else if f.isZero then some f
    else if 0 ≤ e then none
    else match (Double.ofRatio false (Nat.pow 10 308) 1).bind f.div with
      | none => none
      | some f' => scaleByTen fuel f' (e + 308)

def assemble (negative : Bool) (n : Nat) (e : Int) (c : Cursor) :
    Except FaultAt (Number × Cursor) :=
  match (Double.ofNat n).bind (scaleByTen 5 · e) with
  | none => .error (c.atHere .numberRange)
  | some d => .ok (.float { d with negative := negative }, c)

/-- Reads exponent digits; stops behind the first one that leaves the 32-bit range. -/
def takeExponent (n used : Nat) : List Char → Nat × Nat × Bool
  | [] => (n, used, true)
  | d :: ds =>
    let m := n * 10 + (d.toNat - 48)
    if m < Words.span 31 then takeExponent m (used + 1) ds else (n, used + 1, false)

def readExponent (negative : Bool) (n : Nat) (e : Int) (c : Cursor) :
    Except FaultAt (Number × Cursor) :=
  let c := c.advance
  let (down, c) := match c.rest with
    | '+' :: _ => (false, c.advance)
    | '-' :: _ => (true, c.advance)
    | _ => (false, c)
  match c.rest with
  | [] => .error (c.atHere .eofValue)
  | d :: _ =>
    if !d.isDigit then .error ⟨.invalidNumber, c.offset + 1⟩
    else
      let (ds, after) := c.digits
      let (x, used, fits) := takeExponent 0 0 ds
      if fits then assemble negative n (if down then e - x else e + x) after
      else if n ≠ 0 ∧ !down then .error ⟨.numberRange, c.offset + used⟩
      else .ok (.float (Double.zero negative), after)

def readFraction (negative : Bool) (n : Nat) (e : Int) (c : Cursor) :
    Except FaultAt (Number × Cursor) :=
  let c := c.advance
  let (ds, after) := c.digits
  if ds.isEmpty then
    if c.rest.isEmpty then .error (c.atNext .eofValue) else .error (c.atNext .invalidNumber)
  else
    let (n, taken, _) := takeDigits n 0 ds
    let e := e - taken
    match after.rest with
    | 'e' :: _ | 'E' :: _ => readExponent negative n e after
    | _ => assemble negative n e after

def readNumber (negative : Bool) (c : Cursor) : Except FaultAt (Number × Cursor) :=
  match c.rest with
  | [] => .error (c.atHere .eofValue)
  | d :: more =>
    if !d.isDigit then .error ⟨.invalidNumber, c.offset + 1⟩
    else if d == '0' && (more.headD ' ').isDigit then .error (c.advance.atNext .invalidNumber)
    else
      let (ds, after) := c.digits
      let (n, _, dropped) := takeDigits 0 0 ds
      match after.rest with
      | '.' :: _ => readFraction negative n dropped.length after
      | 'e' :: _ | 'E' :: _ => readExponent negative n dropped.length after
      | _ =>
        if !dropped.isEmpty then assemble negative n dropped.length after
        else if !negative then .ok (.int n, after)
        else if n = 0 ∨ Words.span 63 < n then assemble true n 0 after
        else .ok (.int (-(n : Int)), after)

/-- How the entries of a container end: closed before `stop`, or by a fault. -/
inductive Ending where
  | closed (stop : Nat)
  | fault (f : FaultAt)
  deriving DecidableEq, Repr

structure LocatedKey where
  name : String
  stop : Nat
  deriving DecidableEq, Repr

inductive Located where
  | scalar (start stop : Nat) (value : Json)
  | array (start : Nat) (items : List Located) (ending : Ending)
  | object (start : Nat) (fields : List (LocatedKey × Located)) (ending : Ending)
  | fault (start : Nat) (f : FaultAt)
  deriving Repr, Inhabited

/-- What was read, and where reading goes on unless there was a fault. -/
structure Reading (α : Type) where
  node : α
  next : Option Cursor

def readWord (c : Cursor) (word : List Char) (value : Json) : Reading Located :=
  go c.offset c.rest word
where
  go (offset : Nat) : List Char → List Char → Reading Located
    | s, [] => ⟨.scalar c.offset offset value, some ⟨offset, s⟩⟩
    | [], _ :: _ => ⟨.fault c.offset ⟨.eofValue, offset⟩, none⟩
    | x :: xs, w :: ws =>
      if x = w then go (offset + 1) xs ws else ⟨.fault c.offset ⟨.expectedIdent, offset + 1⟩, none⟩

def scalarReading (start : Nat) : Except FaultAt (Json × Cursor) → Reading Located
  | .ok (v, c) => ⟨.scalar start c.offset v, some c⟩
  | .error f => ⟨.fault start f, none⟩

/-- The end of an object for a reader that gives up behind a key. -/
def giveUpOffset (c : Cursor) : Nat :=
  let c := c.skipSpace
  match c.rest with
  | '\x7d' :: _ => c.offset + 1
  | _ => c.offset

mutual
/-- Reads one value; `depth` is how many containers may still be opened. -/
def readValue : Nat → Nat → Cursor → Reading Located
  | 0, _, c => ⟨.fault c.offset (c.atNext .expectedValue), none⟩
  | fuel + 1, depth, c =>
    let c := c.skipSpace
    match c.rest with
    | [] => ⟨.fault c.offset (c.atNext .eofValue), none⟩
    | x :: xs =>
      if x == 'n' then readWord c ['n', 'u', 'l', 'l'] .null
      else if x == 't' then readWord c ['t', 'r', 'u', 'e'] (.bool true)
      else if x == 'f' then readWord c ['f', 'a', 'l', 's', 'e'] (.bool false)
      else if x == '-' then
        scalarReading c.offset ((readNumber true c.advance).map fun p => (.number p.1, p.2))
      else if x.isDigit then
        scalarReading c.offset ((readNumber false c).map fun p => (.number p.1, p.2))
      else if x == '"' then
        scalarReading c.offset ((scanString .plain (c.offset + 1) [] xs).map
          fun p => (.string (String.ofList p.1), p.2))
      else if x == '[' then
        if depth ≤ 1 then ⟨.fault c.offset (c.atNext .recursionLimit), none⟩
        else
          let r := readItems fuel (depth - 1) true c.advance
          ⟨.array c.offset r.node.1 r.node.2, r.next⟩
      else if x == '\x7b' then
        if depth ≤ 1 then ⟨.fault c.offset (c.atNext .recursionLimit), none⟩
        else
          let r := readFields fuel (depth - 1) true c.advance
          ⟨.object c.offset r.node.1 r.node.2, r.next⟩
      else ⟨.fault c.offset (c.atNext .expectedValue), none⟩

def readItems : Nat → Nat → Bool → Cursor → Reading (List Located × Ending)
  | 0, _, _, c => ⟨([], .fault (c.atNext .eofList)), none⟩
  | fuel + 1, depth, first, c =>
    let c := c.skipSpace
    let item (c : Cursor) : Reading (List Located × Ending) :=
      let r := readValue fuel depth c
      match r.next with
      | none => ⟨([r.node], .closed 0), none⟩
      | some c =>
        let rs := readItems fuel depth false c
        ⟨(r.node :: rs.node.1, rs.node.2), rs.next⟩
    match c.rest with
    | [] => ⟨([], .fault (c.atNext .eofList)), none⟩
    | x :: _ =>
      if x == ']' then ⟨([], .closed (c.offset + 1)), some c.advance⟩
      else if first then item c
      else if x == ',' then
        let c := c.advance.skipSpace
        match c.rest with
        | [] => ⟨([], .fault (c.atNext .eofValue)), none⟩
        | y :: _ => if y == ']' then ⟨([], .fault (c.atNext .trailingComma)), none⟩ else item c
      else ⟨([], .fault (c.atNext .expectedListEnd)), none⟩

def readFields : Nat → Nat → Bool → Cursor → Reading (List (LocatedKey × Located) × Ending)
  | 0, _, _, c => ⟨([], .fault (c.atNext .eofObject)), none⟩
  | fuel + 1, depth, first, c =>
    let c := c.skipSpace
    let stop (c : Cursor) (f : Fault) : Reading (List (LocatedKey × Located) × Ending) :=
      ⟨([], .fault (c.atNext f)), none⟩
    let field (c : Cursor) : Reading (List (LocatedKey × Located) × Ending) :=
      match scanString .plain (c.offset + 1) [] (c.rest.drop 1) with
      | .error f => ⟨([], .fault f), none⟩
      | .ok (k, c) =>
        let key : LocatedKey := ⟨String.ofList k, giveUpOffset c⟩
        let c := c.skipSpace
        match c.rest with
        | [] => ⟨([(key, .fault c.offset (c.atNext .eofObject))], .closed 0), none⟩
        | x :: _ =>
          if x == ':' then
            let r := readValue fuel depth c.advance
            match r.next with
            | none => ⟨([(key, r.node)], .closed 0), none⟩
            | some c =>
              let rs := readFields fuel depth false c
              ⟨((key, r.node) :: rs.node.1, rs.node.2), rs.next⟩
          else ⟨([(key, .fault c.offset (c.atNext .expectedColon))], .closed 0), none⟩
    match c.rest with
    | [] => stop c .eofObject
    | x :: _ =>
      if x == '\x7d' then ⟨([], .closed (c.offset + 1)), some c.advance⟩
      else if first then (if x == '"' then field c else stop c .keyNotString)
      else if x == ',' then
        let c := c.advance.skipSpace
        match c.rest with
        | [] => stop c .eofValue
        | y :: _ =>
          if y == '"' then field c
          else if y == '\x7d' then stop c .trailingComma
          else stop c .keyNotString
      else stop c .expectedObjectEnd
end

mutual
def Located.toJson : Located → Except FaultAt Json
  | .scalar _ _ v => .ok v
  | .fault _ f => .error f
  | .array _ xs e =>
    match itemsToJson xs, e with
    | .error f, _ => .error f
    | .ok _, .fault f => .error f
    | .ok vs, .closed _ => .ok (.array vs)
  | .object _ fs e =>
    match fieldsToJson fs, e with
    | .error f, _ => .error f
    | .ok _, .fault f => .error f
    | .ok vs, .closed _ => .ok (.object (Entries.ofList vs))

def itemsToJson : List Located → Except FaultAt (List Json)
  | [] => .ok []
  | x :: xs =>
    match x.toJson with
    | .error f => .error f
    | .ok v => (itemsToJson xs).map (v :: ·)

def fieldsToJson : List (LocatedKey × Located) → Except FaultAt (List (String × Json))
  | [] => .ok []
  | (k, x) :: xs =>
    match x.toJson with
    | .error f => .error f
    | .ok v => (fieldsToJson xs).map ((k.name, v) :: ·)
end

/-- Containers may be nested 127 deep. -/
def depthLimit : Nat := 128

/-- A whole text: its tree, and a fault for what follows the value. -/
def locate (text : List Char) : Located × Option FaultAt :=
  let r := readValue (2 * text.length + 2) depthLimit ⟨0, text⟩
  match r.next with
  | none => (r.node, none)
  | some c =>
    let c := c.skipSpace
    (r.node, if c.rest.isEmpty then none else some (c.atNext .trailingCharacters))

def parseChars (text : List Char) : Except FaultAt Json :=
  let (tree, after) := locate text
  match tree.toJson, after with
  | .error f, _ => .error f
  | .ok _, some f => .error f
  | .ok v, none => .ok v

def parse (text : String) : Except FaultAt Json := parseChars text.toList

end Json
end Workbench

import Workbench.Format.Toml.Table
import Workbench.Number.Words
import Workbench.Text.Ascii
import Workbench.Text.Scan
set_option autoImplicit false

namespace Workbench.Toml

open Scan
export Text (isSpaceOrTab isHex hexValue padded)

def blanks : Scan (List Char) := run isSpaceOrTab

def newline : Scan Unit :=
  (Scan.map (fun _ => ()) (one '\n')).or (do let _ ← one '\r'; let _ ← one '\n'; pure ())

def isCommentChar (c : Char) : Bool := c == '\t' || (32 ≤ c.toNat && c.toNat != 127)

def comment : Scan Unit := do
  let _ ← one '#'
  let _ ← run isCommentChar
  pure ()

def endOfText : Scan Unit := fun c => if c.atEnd then .done () c else .miss c.offset

def lineEnd : Scan Unit := newline.or endOfText

def lineRest : Scan Unit := do
  let _ ← blanks
  let _ ← maybe comment
  lineEnd

def gaps : Scan Unit := do
  let _ ← many ((Scan.map (fun _ => ()) (run1 isSpaceOrTab)).or newline |>.or
    (do comment; newline))
  pure ()

def codePoint (n : Nat) : Scan Char := fun c =>
  let ds := (c.rest.take n).takeWhile isHex
  let v := ds.foldl (fun m d => m * 16 + hexValue d) 0
  if ds.length = n ∧ (v < 0xD800 ∨ (0xDFFF < v ∧ v < 0x110000)) then
    .done (Char.ofNat v) ⟨c.offset + n, c.rest.drop n⟩
  else .miss c.offset

/-- The place behind an unknown escape; a character of several bytes is not stepped over. -/
def badEscape (x : Char) : Scan Char := fun c =>
  .halt (if x.utf8Size = 1 then c.offset else c.offset - x.utf8Size)

def escapeSequence : Scan Char := do
  let _ ← one '\\'
  let x ← anyChar
  match x with
  | 'b' => pure '\x08'
  | 'f' => pure '\x0c'
  | 'n' => pure '\n'
  | 'r' => pure '\r'
  | 't' => pure '\t'
  | '\\' => pure '\\'
  | '"' => pure '"'
  | 'u' => must (codePoint 4)
  | 'U' => must (codePoint 8)
  | _ => badEscape x

def isBasicChar (c : Char) : Bool := isCommentChar c && c != '"' && c != '\\'

def isLiteralChar (c : Char) : Bool := isCommentChar c && c != '\''

def basicPart : Scan (List Char) := (run1 isBasicChar).or (Scan.map (fun x => [x]) escapeSequence)

def basicString : Scan (List Char) := do
  let _ ← one '"'
  let parts ← many basicPart
  let _ ← must (one '"')
  pure parts.flatten

def literalString : Scan (List Char) := do
  let _ ← one '\''
  let body ← run isLiteralChar
  let _ ← must (one '\'')
  pure body

/-- One or two quotes, where `following` is at hand behind them. -/
def quotesBefore {α : Type} (q : Char) (following : Scan α) : Scan (List Char) :=
  (do word [q, q]; let _ ← peek following; pure [q, q]).or
    (do word [q]; let _ ← peek following; pure [q])

/-- A backslash at the end of a line takes the line end and all blanks after it away. -/
def foldedLine : Scan (List Char) := do
  let _ ← many1 (do
    let _ ← one '\\'
    let _ ← blanks
    newline
    let _ ← many ((Scan.map (fun _ => ()) (run1 isSpaceOrTab)).or newline)
    pure ())
  pure []

def blockPart : Scan (List Char) :=
  ((run1 isBasicChar).or foldedLine).or (Scan.map (fun x => [x]) escapeSequence) |>.or
    (Scan.map (fun _ => ['\n']) newline)

/-- Runs of quotes and the text after each; stops behind quotes that no text follows. -/
def quotedRuns : Nat → Scan (List Char)
  | 0 => pure []
  | n + 1 => do
    match ← maybe (quotesBefore '"' (char (· != '"'))) with
    | none => pure []
    | some q =>
      let parts ← many blockPart
      if parts.isEmpty then pure []
      else
        let rest ← quotedRuns n
        pure (q ++ parts.flatten ++ rest)

def blockBody : Scan (List Char) := do
  let first ← many blockPart
  let middle ← fun c => quotedRuns (c.rest.length + 1) c
  let last ← maybe (quotesBefore '"' (word ['"', '"', '"']))
  pure (first.flatten ++ middle ++ last.getD [])

def blockString : Scan (List Char) := do
  word ['"', '"', '"']
  let _ ← maybe newline
  let body ← must blockBody
  must (word ['"', '"', '"'])
  pure body

def literalPart : Scan (List Char) := (run1 isLiteralChar).or (Scan.map (fun _ => ['\n']) newline)

def literalBlockBody : Scan (List Char) := do
  let first ← many literalPart
  let middle ← many (do
    let q ← quotesBefore '\'' (char (· != '\''))
    let parts ← many1 literalPart
    pure (q ++ parts.flatten))
  let last ← maybe (quotesBefore '\'' (word ['\'', '\'', '\'']))
  pure (first.flatten ++ middle.flatten ++ last.getD [])

def literalBlock : Scan (List Char) := do
  word ['\'', '\'', '\'']
  let _ ← maybe newline
  let body ← must literalBlockBody
  must (word ['\'', '\'', '\''])
  pure body

def stringValue : Scan (List Char) :=
  ((blockString.or basicString).or literalBlock).or literalString

def isBareChar (c : Char) : Bool := c.isAlphanum || c == '-' || c == '_'

def simpleKey : Scan String := do
  let key ← match ← peek anyChar with
    | '"' => basicString
    | '\'' => literalString
    | _ => run1 isBareChar
  pure (String.ofList key)

/-- Keys of this many segments are refused, and so is nesting of values below this many levels. -/
def depthLimit : Nat := 80

def keyPath (limit : Nat) : Scan (List String) :=
  check (sepBy1 (do let _ ← blanks; let k ← simpleKey; let _ ← blanks; pure k) (one '.'))
    fun ks => if limit ≤ ks.length then none else some ks

def inRange (low high n : Nat) : Option Nat := if low ≤ n ∧ n ≤ high then some n else none

def twoDigits (low high : Nat) : Scan Nat := check (fixedDigits 2) (inRange low high)

def isLeap (year : Nat) : Bool := year % 4 == 0 && (year % 100 != 0 || year % 400 == 0)

def daysIn (year month : Nat) : Nat :=
  if month = 2 then (if isLeap year then 29 else 28)
  else if [4, 6, 9, 11].contains month then 30
  else 31

def fullDate : Scan (List Char) := do
  let year ← fixedDigits 4
  let _ ← one '-'
  let month ← must (twoDigits 1 12)
  let _ ← must (one '-')
  let day ← require (must (twoDigits 1 31)) (inRange 1 (daysIn year month))
  pure (padded 4 year ++ '-' :: padded 2 month ++ '-' :: padded 2 day)

/-- The first nine digits of a second's fraction, without zeros at the end. -/
def fraction : Scan (List Char) := do
  let _ ← one '.'
  let ds ← run1 Char.isDigit
  let kept := ((ds.take 9).reverse.dropWhile (· == '0')).reverse
  pure (if kept.isEmpty then [] else '.' :: kept)

def partialTime : Scan (List Char) := do
  let hour ← twoDigits 0 23
  let _ ← one ':'
  let minute ← must (twoDigits 0 59)
  let _ ← must (one ':')
  let second ← must (twoDigits 0 60)
  let part ← must (maybe fraction)
  pure (padded 2 hour ++ ':' :: padded 2 minute ++ ':' :: padded 2 second ++ part.getD [])

def timeOffset : Scan (List Char) :=
  (do let _ ← char (fun x => x == 'Z' || x == 'z'); pure ['Z']).or (do
    let sign ← char (fun x => x == '+' || x == '-')
    let hours ← must (twoDigits 0 23)
    let _ ← must (one ':')
    let minutes ← must (twoDigits 0 59)
    let sign := if hours = 0 ∧ minutes = 0 then '+' else sign
    pure (sign :: padded 2 hours ++ ':' :: padded 2 minutes))

def dateTime : Scan (List Char) :=
  (do
    let date ← fullDate
    let time ← maybe (do
      let _ ← char (fun x => x == 'T' || x == 't' || x == ' ')
      let time ← partialTime
      let shift ← maybe timeOffset
      pure ('T' :: time ++ shift.getD []))
    pure (date ++ time.getD [])).or partialTime

/-- Digits with single underscores between them; an underscore that no digit follows halts. -/
def digitTail (isDigit : Char → Bool) : Scan (List Char) :=
  many ((char isDigit).or (do let _ ← one '_'; must (char isDigit)))

def digitRun (isDigit : Char → Bool) : Scan (List Char) := do
  let d ← char isDigit
  let ds ← digitTail isDigit
  pure (d :: ds)

def sign : Scan Bool := do
  match ← maybe (char fun x => x == '+' || x == '-') with
  | some '-' => pure true
  | _ => pure false

def wholeNumber : Scan (Bool × List Char) := do
  let negative ← sign
  let ds ← (do
    let d ← char fun x => x.isDigit && x != '0'
    let ds ← digitTail Char.isDigit
    pure (d :: ds)).or (Scan.map (fun d => [d]) (char Char.isDigit))
  pure (negative, ds)

def numberOf (base : Nat) (ds : List Char) : Nat := ds.foldl (fun n d => n * base + hexValue d) 0

def inWord (n : Int) : Option Json :=
  if Words.isSigned 64 n then some (.ofInt n) else none

def exponentPart : Scan Int := do
  let _ ← char fun x => x == 'e' || x == 'E'
  let negative ← sign
  let ds ← must (digitRun Char.isDigit)
  let n : Int := numberOf 10 ds
  pure (if negative then -n else n)

def fractionPart : Scan (List Char) := do
  let _ ← one '.'
  must (digitRun Char.isDigit)

def floatParts : Scan (Bool × List Char × Int) := do
  let (negative, whole) ← wholeNumber
  (do let e ← exponentPart; pure (negative, whole, e)).or (do
    let part ← fractionPart
    let e ← maybe exponentPart
    pure (negative, whole ++ part, e.getD 0 - part.length))

/-- Beyond the greatest double: an error above, null below. -/
def floatValue : Bool × List Char × Int → Option Json
  | (negative, ds, e) =>
    match Double.ofDecimal negative (numberOf 10 ds) e with
    | some d => some (.number (.float d))
    | none => if negative then some .null else none

def notFinite : Scan Json := do
  let _ ← sign
  (word ['i', 'n', 'f']).or (word ['n', 'a', 'n'])
  pure .null

def float : Scan Json := (require floatParts floatValue).or notFinite

def prefixed (mark : Char) (base : Nat) (isDigit : Char → Bool) : Scan Json :=
  require (do word ['0', mark]; must (digitRun isDigit)) fun ds => inWord (numberOf base ds)

def integer : Scan Json := fun c =>
  match c.rest with
  | '0' :: 'x' :: _ => prefixed 'x' 16 isHex c
  | '0' :: 'o' :: _ => prefixed 'o' 8 (fun x => '0' ≤ x && x ≤ '7') c
  | '0' :: 'b' :: _ => prefixed 'b' 2 (fun x => x == '0' || x == '1') c
  | _ => require wholeNumber (fun p =>
      let n : Int := numberOf 10 p.2
      inWord (if p.1 then -n else n)) c

def number : Scan Json :=
  ((Scan.map (fun s => Json.string (String.ofList s)) dateTime).or float).or integer

def arrayOf (value : Scan Json) : Scan Json := do
  let _ ← one '['
  let items ← sepBy (do gaps; let v ← value; gaps; pure v) (one ',')
  if !items.isEmpty then
    let _ ← maybe (one ',')
  must gaps
  let _ ← must (one ']')
  pure (.array items)

def pairOf (limit : Nat) (value : Scan Json) : Scan (List String × Json) := do
  let path ← keyPath limit
  let _ ← must (one '=')
  let _ ← blanks
  let v ← must value
  let _ ← blanks
  pure (path, v)

def Open.putAll (t : Open) : List (List String × Json) → Except Clash Open
  | [] => .ok t
  | (path, v) :: ps => do
    let t ← t.put path.dropLast (path.getLastD "") v
    t.putAll ps

def inlineTableOf (limit : Nat) (value : Scan Json) : Scan Json := do
  let _ ← one '\x7b'
  let v ← require (do
      let ps ← sepBy (pairOf limit value) (one ',')
      let _ ← blanks
      pure ps) fun ps =>
    match Open.putAll ⟨false, false, []⟩ ps with
    | .ok t => some (Json.object (entriesToJson t.entries))
    | .error _ => none
  let _ ← must (one '\x7d')
  pure v

def valueWith (array table : Scan Json) : Scan Json := do
  match ← peek anyChar with
  | '"' | '\'' => Scan.map (fun s => .string (String.ofList s)) stringValue
  | '[' => array
  | '\x7b' => table
  | 't' => Scan.map (fun _ => .bool true) (must (word ['t', 'r', 'u', 'e']))
  | 'f' => Scan.map (fun _ => .bool false) (must (word ['f', 'a', 'l', 's', 'e']))
  | 'i' => Scan.map (fun _ => .null) (word ['i', 'n', 'f'])
  | 'n' => Scan.map (fun _ => .null) (word ['n', 'a', 'n'])
  | x =>
    if x.isDigit || x == '+' || x == '-' then number
    else if x == '_' then integer
    else if x == '.' then float
    else fail

/-- A value that may open so many more arrays and tables within each other. -/
def valueUpTo (limit : Nat) : Nat → Scan Json
  | 0 => valueWith (must fail) (must fail)
  | n + 1 => valueWith (arrayOf (valueUpTo limit n)) (inlineTableOf limit (valueUpTo limit n))

def value (limit : Nat) : Scan Json := valueUpTo limit (limit - 1)

end Workbench.Toml

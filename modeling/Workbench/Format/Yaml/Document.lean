import Workbench.Format.Yaml.Events
import Workbench.Format.Yaml.Scalar
import Workbench.Text.Escaped
set_option autoImplicit false

namespace Workbench.Yaml

inductive Part where
  | void
  | alias (id : Nat)
  | scalar (tag : Option TagBytes) (text : List Char) (style : ScalarStyle)
  | sequenceStart (tag : Option TagBytes)
  | sequenceEnd
  | mappingStart (tag : Option TagBytes)
  | mappingEnd
  deriving DecidableEq, Repr

inductive DocumentError where
  | fault (f : Fault)
  | unknownAnchor (m : Mark)
  | tooDeep (m : Mark)
  | tooManyAliases
  | manyDocuments
  | misfit (path : Option String) (text : String) (m : Mark)
  deriving DecidableEq, Repr

def DocumentError.message : DocumentError → String
  | .fault f => f.message
  | .unknownAnchor m => "unknown anchor" ++ m.note
  | .tooDeep m => "recursion limit exceeded" ++ m.note
  | .tooManyAliases => "repetition limit exceeded"
  | .manyDocuments => "deserializing from YAML containing more than one document is not supported"
  | .misfit none t m => t ++ m.note
  | .misfit (some p) t m => p ++ ": " ++ t ++ m.note

structure Document where
  parts : Array (Part × Mark)
  error : Option DocumentError
  /-- Where the node of an anchor's number begins; of two the first in the list stands. -/
  anchors : List (Nat × Nat)
  last : Bool

namespace Document

structure Loading where
  parts : Array (Part × Mark)
  names : List (List Char × Nat)
  anchors : List (Nat × Nat)

def Loading.push (l : Loading) (anchor : Option (List Char)) (part : Part) (m : Mark) : Loading :=
  match anchor with
  | none => { l with parts := l.parts.push (part, m) }
  | some a =>
    let id := l.names.length
    { parts := l.parts.push (part, m)
      names := (a, id) :: l.names.filter fun n => n.1 != a
      anchors := (id, l.parts.size) :: l.anchors }

def load (fault : Option Fault) : List Event → Loading → Document
  | [], l => ⟨l.parts, fault.map .fault, l.anchors, false⟩
  | e :: es, l =>
    match e.kind with
    | .streamStart | .documentStart => load fault es l
    | .streamEnd =>
      let parts := if l.parts.isEmpty then #[(.void, e.mark)] else l.parts
      ⟨parts, none, l.anchors, true⟩
    | .documentEnd =>
      ⟨l.parts, none, l.anchors, es.head?.any fun e => e.kind == .streamEnd⟩
    | .alias name =>
      match l.names.find? (·.1 == name) with
      | some (_, id) => load fault es (l.push none (.alias id) e.mark)
      | none => ⟨l.parts, some (.unknownAnchor e.mark), l.anchors, false⟩
    | .scalar a t x s => load fault es (l.push a (.scalar t x s) e.mark)
    | .sequenceStart a t => load fault es (l.push a (.sequenceStart t) e.mark)
    | .sequenceEnd => load fault es (l.push none .sequenceEnd e.mark)
    | .mappingStart a t => load fault es (l.push a (.mappingStart t) e.mark)
    | .mappingEnd => load fault es (l.push none .mappingEnd e.mark)

def ofEvents (es : Events) : Document := load es.fault es.items ⟨#[], [], []⟩

structure Path where
  text : Option String

namespace Path

def root : Path := ⟨none⟩

def item (p : Path) (i : Nat) : Path := ⟨some (p.text.getD "." ++ s!"[{i}]")⟩

def under (p : Path) (key : String) : Path :=
  ⟨some (match p.text with
    | none => key
    | some t => t ++ "." ++ key)⟩

def shown (p : Path) : Option String := p.text.filter (· != ".")

end Path

/-- The part to read next and the aliases followed so far. -/
structure Reader where
  position : Nat
  followed : Nat
  deriving DecidableEq, Repr

abbrev Reading := Except DocumentError

variable (d : Document)

def partAt (position : Nat) : Reading (Part × Mark) :=
  match d.parts[position]? with
  | some p => .ok p
  | none => .error (d.error.getD .manyDocuments)

def localTag? (tag : Option TagBytes) : Option String :=
  match tag with
  | some (b :: rest) =>
    if b = 33 then
      match Utf8.decode (if rest.isEmpty then [b] else rest) with
      | .ok cs => some (String.ofList cs)
      | .error _ => none
    else none
  | _ => none

def standardTag (name : String) : TagBytes := Utf8.encode ("tag:yaml.org,2002:" ++ name).toList

def invalidValue (text : List Char) (expected : String) : Except String Node :=
  .error ("invalid value: string " ++ Text.debugQuoted (String.ofList text) ++ ", expected " ++ expected)

def ofInt (n : Int) : Except String Node :=
  let refuse (kind : String) : Except String Node :=
    .error (s!"invalid type: integer `{n}` as " ++ kind ++ ", expected any YAML value")
  if Words.span 64 ≤ n then refuse "u128"
  else if !Words.isSignedFrom 64 n then refuse "i128"
  else .ok (.int n)

def ofPlain (text : List Char) : Except String Node :=
  match Scalar.ofPlain text with
  | .null => .ok .null
  | .bool b => .ok (.bool b)
  | .int n => ofInt n
  | .real r => .ok (.real r)
  | .text => .ok (.string (String.ofList text))

/-- A scalar whose own tag, if it has one, was not read yet. -/
def ofTagged (tag : TagBytes) (text : List Char) (style : ScalarStyle) : Except String Node :=
  if tag = standardTag "bool" then
    match Scalar.bool? text with
    | some b => .ok (.bool b)
    | none => invalidValue text "a boolean"
  else if tag = standardTag "int" then
    match (Scalar.int? text).filter Scalar.fitsWide with
    | some n => ofInt n
    | none => invalidValue text "an integer"
  else if tag = standardTag "float" then
    match Scalar.real? text with
    | some r => .ok (.real r)
    | none => invalidValue text "a float"
  else if tag = standardTag "null" then
    if Scalar.isNullWord text then .ok .null else invalidValue text "null"
  else if tag.head? = some 33 && style = .plain then ofPlain text
  else .ok (.string (String.ofList text))

def ofScalar (tag : Option TagBytes) (tagRead : Bool) (text : List Char) (style : ScalarStyle) :
    Except String Node :=
  match tag, tagRead with
  | some t, false => ofTagged t text style
  | _, _ => if style = .plain then ofPlain text else .ok (.string (String.ofList text))

def duplicateText (key : Node) : String :=
  "duplicate entry " ++ match key with
    | .null => "with null key"
    | .bool b => if b then "with key `true`" else "with key `false`"
    | .int n => s!"with key {n}"
    | .real r => "with key " ++ r.text
    | .string s => "with key " ++ Text.debugQuoted s
    | _ => "in YAML map"

def depthLimit : Nat := 128

mutual
/-- Reads the value at a position. `tagRead` says that its tag was read already. -/
def readNode : Nat → (depth : Nat) → Path → (tagRead : Bool) → Reader → Reading (Node × Reader)
  | 0, _, _, _, _ => .error .tooManyAliases
  | fuel + 1, depth, path, tagRead, r => do
    let (part, m) ← d.partAt r.position
    let next : Reader := { r with position := r.position + 1 }
    let tagged (tag : Option TagBytes) (untagged : Reading (Node × Reader)) :
        Reading (Node × Reader) :=
      match tagRead, localTag? tag with
      | false, some t => do
        let (n, r) ← readNode fuel depth path true r
        pure (.tagged t n, r)
      | _, _ => untagged
    match part with
    | .void | .sequenceEnd | .mappingEnd => pure (.null, next)
    | .alias id =>
      if d.parts.size * 100 < r.followed + 1 then .error .tooManyAliases
      else do
        let target := ((d.anchors.find? (·.1 == id)).map (·.2)).getD d.parts.size
        let (n, r') ← readNode fuel depth path false ⟨target, r.followed + 1⟩
        pure (n, ⟨next.position, r'.followed⟩)
    | .scalar tag text style =>
      tagged tag (match ofScalar tag tagRead text style with
        | .ok n => .ok (n, next)
        | .error t => .error (.misfit path.shown t m))
    | .sequenceStart tag =>
      tagged tag (match depth with
        | 0 => .error (.tooDeep m)
        | depth + 1 => do
          let (items, r) ← readItems fuel depth path 0 [] next
          pure (.sequence items, r))
    | .mappingStart tag =>
      tagged tag (match depth with
        | 0 => .error (.tooDeep m)
        | depth + 1 => do
          let (entries, r) ← readEntries fuel depth path tagRead m [] next
          pure (.mapping entries, r))

def readItems : Nat → Nat → Path → Nat → List Node → Reader → Reading (List Node × Reader)
  | 0, _, _, _, _, _ => .error .tooManyAliases
  | fuel + 1, depth, path, i, acc, r => do
    let (part, _) ← d.partAt r.position
    if part = .sequenceEnd then pure (acc.reverse, { r with position := r.position + 1 })
    else
      let (n, r) ← readNode fuel depth (path.item i) false r
      readItems fuel depth path (i + 1) (n :: acc) r

/-- A key that is there already is refused before its value is read. -/
def readEntries : Nat → Nat → Path → Bool → Mark → List (Node × Node) → Reader →
    Reading (List (Node × Node) × Reader)
  | 0, _, _, _, _, _, _ => .error .tooManyAliases
  | fuel + 1, depth, path, tagRead, m, acc, r => do
    let (part, _) ← d.partAt r.position
    if part = .mappingEnd then pure (acc.reverse, { r with position := r.position + 1 })
    else
      let name := match part with
        | .scalar _ text _ => String.ofList text
        | _ => "?"
      let (key, r) ← readNode fuel depth path tagRead r
      if acc.any (fun e => e.1.same key) then .error (.misfit path.shown (duplicateText key) m)
      else
        let (value, r) ← readNode fuel depth (path.under name) false r
        readEntries fuel depth path tagRead m ((key, value) :: acc) r
end

/-- Reads the only document of a text. No path through it is longer than the fuel. -/
def read : Reading Node := do
  let fuel := (depthLimit + 2) * (2 * d.parts.size + 8)
  let (n, _) ← d.readNode fuel depthLimit Path.root false ⟨0, 0⟩
  match d.error with
  | some e => .error e
  | none => if d.last then .ok n else .error .manyDocuments

end Document
end Workbench.Yaml

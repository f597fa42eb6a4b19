import Workbench.Json.Reader
import Workbench.Json.Printer
import Workbench.Text.Escaped
set_option autoImplicit false

/-! Decoding JSON into types. A record takes its fields from an object by name or from an array by
position; each field says what its absence means. A value is decoded either from a `Json` value or
from a text as it is read; only a text gives a misfit a position, and the first misfit or fault in
text order is the one reported. -/

namespace Workbench.Json

inductive Found where
  | null
  | bool (b : Bool)
  | number (n : Number)
  | string (s : String)
  | sequence
  | map
  deriving DecidableEq, Repr

def Found.text : Found → String
  | .null => "null"
  | .bool b => if b then "boolean `true`" else "boolean `false`"
  | .number (.int n) => s!"integer `{n}`"
  | .number (.float d) => "floating point `" ++ String.ofList (NumberLayout.json.render d) ++ "`"
  | .string s => "string " ++ Text.debugQuoted s
  | .sequence => "sequence"
  | .map => "map"

inductive Misfit where
  | missingField (name : String)
  | unknownField (name : String) (known : List String)
  | duplicateField (name : String)
  | unknownVariant (name : String) (known : List String)
  | invalidType (found : Found) (expected : String)
  | invalidValue (found : Found) (expected : String)
  | invalidLength (length : Nat) (expected : String)
  | fault (f : Fault)
  | other (message : String)
  deriving DecidableEq, Repr

def ticked (s : String) : String := "`" ++ s ++ "`"

def oneOf (what : String) : List String → String
  | [] => "there are no " ++ what
  | [a] => "expected " ++ ticked a
  | [a, b] => "expected " ++ ticked a ++ " or " ++ ticked b
  | names => "expected one of " ++ Text.joined ", " (names.map ticked)

def Misfit.message : Misfit → String
  | .missingField n => "missing field " ++ ticked n
  | .unknownField n known => "unknown field " ++ ticked n ++ ", " ++ oneOf "fields" known
  | .duplicateField n => "duplicate field " ++ ticked n
  | .unknownVariant n known => "unknown variant " ++ ticked n ++ ", " ++ oneOf "variants" known
  | .invalidType f e => "invalid type: " ++ f.text ++ ", expected " ++ e
  | .invalidValue f e => "invalid value: " ++ f.text ++ ", expected " ++ e
  | .invalidLength n e => s!"invalid length {n}, expected " ++ e
  | .fault f => f.message
  | .other m => m

/-- A misfit, and its offset when it was met in a text. -/
structure MisfitAt where
  misfit : Misfit
  offset : Option Nat
  deriving DecidableEq, Repr

def MisfitAt.message (text : List Char) (m : MisfitAt) : String :=
  m.misfit.message ++ match m.offset with
    | none => ""
    | some o => positionText text o

/-- A decoder works on a tree; `inText` tells whether the tree was read from a text. -/
abbrev Decoder (α : Type) := (inText : Bool) → Located → Except MisfitAt α

mutual
def toLocated : Json → Located
  | .array xs => .array 0 (itemsToLocated xs) (.closed 0)
  | .object fs => .object 0 (fieldsToLocated fs) (.closed 0)
  | .null => .scalar 0 0 .null
  | .bool b => .scalar 0 0 (.bool b)
  | .number n => .scalar 0 0 (.number n)
  | .string s => .scalar 0 0 (.string s)

def itemsToLocated : List Json → List Located
  | [] => []
  | x :: xs => x.toLocated :: itemsToLocated xs

def fieldsToLocated : List (String × Json) → List (LocatedKey × Located)
  | [] => []
  | (k, x) :: xs => (⟨k, 0⟩, x.toLocated) :: fieldsToLocated xs
end

namespace Decode

def reject {α : Type} (inText : Bool) (offset : Nat) (m : Misfit) : Except MisfitAt α :=
  .error ⟨m, if inText then some offset else none⟩

def faulty {α : Type} (f : FaultAt) : Except MisfitAt α := .error ⟨.fault f.fault, some f.offset⟩

def foundScalar : Json → Found
  | .null => .null
  | .bool b => .bool b
  | .number n => .number n
  | .string s => .string s
  | .array _ => .sequence
  | .object _ => .map

def wrongType {α : Type} (expected : String) : Decoder α
  | inText, .scalar _ stop v => reject inText stop (.invalidType (foundScalar v) expected)
  | inText, .array start _ _ => reject inText start (.invalidType .sequence expected)
  | inText, .object start _ _ => reject inText start (.invalidType .map expected)
  | _, .fault _ f => faulty f

def any : Decoder Json := fun _ t =>
  match t.toJson with
  | .ok v => .ok v
  | .error f => faulty f

def string : Decoder String
  | _, .scalar _ _ (.string s) => .ok s
  | inText, t => wrongType "a string" inText t

def bool : Decoder Bool
  | _, .scalar _ _ (.bool b) => .ok b
  | inText, t => wrongType "a boolean" inText t

def intBetween (low high : Int) (typeName : String) : Decoder Int
  | inText, .scalar _ stop (.number (.int n)) =>
    if low ≤ n ∧ n ≤ high then .ok n
    else reject inText stop (.invalidValue (.number (.int n)) typeName)
  | inText, t => wrongType typeName inText t

def i32 : Decoder Int := intBetween (-2147483648) 2147483647 "i32"

def u64 : Decoder Nat := fun b t => (intBetween 0 18446744073709551615 "u64" b t).map Int.toNat

def usize : Decoder Nat :=
  fun b t => (intBetween 0 18446744073709551615 "usize" b t).map Int.toNat

def option {α : Type} (d : Decoder α) : Decoder (Option α)
  | _, .scalar _ _ .null => .ok none
  | inText, t => (d inText t).map some

def itemsWith {α : Type} (d : Decoder α) (inText : Bool) : List Located → Except MisfitAt (List α)
  | [] => .ok []
  | x :: xs => do
    let v ← d inText x
    let vs ← itemsWith d inText xs
    pure (v :: vs)

def list {α : Type} (d : Decoder α) : Decoder (List α)
  | inText, .array _ xs e => do
    let vs ← itemsWith d inText xs
    match e with
    | .fault f => faulty f
    | .closed _ => pure vs
  | inText, t => wrongType "a sequence" inText t

def fieldsWith {α : Type} (d : Decoder α) (inText : Bool) :
    List (LocatedKey × Located) → Except MisfitAt (List (String × α))
  | [] => .ok []
  | (k, x) :: xs => do
    let v ← d inText x
    let vs ← fieldsWith d inText xs
    pure ((k.name, v) :: vs)

def map {α : Type} (d : Decoder α) : Decoder (Entries α)
  | inText, .object _ fs e => do
    let vs ← fieldsWith d inText fs
    match e with
    | .fault f => faulty f
    | .closed _ => pure (Entries.ofList vs)
  | inText, t => wrongType "a map" inText t

/-- What it means that a field is absent: an error; its resting value, but an error in a record
written as an array; its resting value. -/
inductive Presence where
  | required
  | optional
  | defaulted
  deriving DecidableEq, Repr

structure Field (σ : Type) where
  name : String
  presence : Presence
  put : σ → (inText : Bool) → Located → Except MisfitAt σ

def field {σ α : Type} (name : String) (presence : Presence) (d : Decoder α)
    (set : σ → α → σ) : Field σ :=
  ⟨name, presence, fun s b t => (d b t).map (set s)⟩

variable {σ : Type}

def elements (n : Nat) : String := if n = 1 then "1 element" else s!"{n} elements"

def closeArray (inText : Bool) (total : Nat) : List Located → Ending → Except MisfitAt Unit
  | [], .closed _ => .ok ()
  | [], .fault f =>
    match f.fault with
    | .eofValue | .expectedListEnd => faulty { f with fault := .trailingCharacters }
    | _ => faulty f
  | x :: _, _ =>
    if inText then
      let start := match x with
        | .scalar s _ _ | .array s _ _ | .object s _ _ | .fault s _ => s
      faulty ⟨.trailingCharacters, start + 1⟩
    else reject false 0 (.invalidLength total "fewer elements in array")

def takeItems (record : String) (count : Nat) (total : Nat) (inText : Bool) (ending : Ending) :
    Nat → List (Field σ) → List Located → σ → Except MisfitAt σ
  | _, [], xs, s => do
    closeArray inText total xs ending
    pure s
  | i, f :: fs, [], s =>
    match ending with
    | .fault e => faulty e
    | .closed stop =>
      if f.presence = .defaulted then takeItems record count total inText ending (i + 1) fs [] s
      else reject inText stop
        (.invalidLength i ("struct " ++ record ++ " with " ++ elements count))
  | i, f :: fs, x :: xs, s => do
    let s ← f.put s inText x
    takeItems record count total inText ending (i + 1) fs xs s

/-- Fields taken by name, in the order they stand; answers the names seen too. -/
def takeFields (sealedNames : Bool) (fields : List (Field σ)) (inText : Bool) :
    List (LocatedKey × Located) → List String → σ → Except MisfitAt (List String × σ)
  | [], seen, s => .ok (seen, s)
  | (k, x) :: rest, seen, s =>
    match fields.find? (fun f => f.name == k.name) with
    | some f =>
      if seen.contains f.name then reject inText k.stop (.duplicateField f.name)
      else do
        let s ← f.put s inText x
        takeFields sealedNames fields inText rest (f.name :: seen) s
    | none =>
      if sealedNames then
        reject inText k.stop (.unknownField k.name (fields.map (·.name)))
      else do
        let _ ← any inText x
        takeFields sealedNames fields inText rest seen s

/-- A record: `resting` holds the value of every field that may be absent, and `sealedNames` says
that no other field may stand beside the named ones. -/
def record (name : String) (sealedNames : Bool) (fields : List (Field σ)) (resting : σ) : Decoder σ
  | inText, .object _ fs ending => do
    let (seen, s) ← takeFields sealedNames fields inText fs [] resting
    match ending with
    | .fault f => faulty f
    | .closed stop =>
      match fields.find? (fun f => f.presence = .required && !seen.contains f.name) with
      | some f => reject inText stop (.missingField f.name)
      | none => pure s
  | inText, .array _ xs ending =>
    takeItems name fields.length xs.length inText ending 0 fields xs resting
  | inText, t => wrongType ("struct " ++ name) inText t

def pick {α : Type} (variants : List (String × α)) (inText : Bool) (offset : Nat) (s : String) :
    Except MisfitAt α :=
  match variants.find? (fun v => v.1 == s) with
  | some v => .ok v.2
  | none => reject inText offset (.unknownVariant s (variants.map (·.1)))

def unit : Decoder Unit
  | _, .scalar _ _ .null => .ok ()
  | inText, t => wrongType "unit" inText t

/-- A name from a list, as a string or as the only key of an object that holds null. -/
def variant {α : Type} (variants : List (String × α)) : Decoder α
  | inText, .scalar _ stop (.string s) => pick variants inText stop s
  | inText, .object start [] ending =>
    if inText then match ending with
      | .closed stop => faulty ⟨.expectedValue, stop⟩
      | .fault f => faulty (if f.fault = .eofObject then { f with fault := .eofValue } else f)
    else reject false start (.invalidValue .map "map with a single key")
  | inText, .object start ((k, x) :: rest) ending => do
    if !inText && !rest.isEmpty then
      reject false start (.invalidValue .map "map with a single key")
    else
      let v ← pick variants inText k.stop k.name
      unit inText x
      match rest, ending with
      | [], .closed _ => pure v
      | [], .fault f => faulty (if f.fault = .eofObject then f else { f with fault := .expectedValue })
      | (k', _) :: _, _ => faulty ⟨.expectedValue, k'.stop⟩
  | inText, t =>
    if inText then match t with
      | .fault _ f => faulty f
      | .scalar start _ _ | .array start _ _ | .object start _ _ =>
        faulty ⟨.expectedValue, start + 1⟩
    else wrongType "string or map" false t

end Decode

def decode {α : Type} (d : Decoder α) (v : Json) : Except String α :=
  match d false v.toLocated with
  | .ok x => .ok x
  | .error m => .error m.misfit.message

def decodeText {α : Type} (d : Decoder α) (text : String) : Except String α :=
  let cs := text.toList
  let (tree, after) := locate cs
  match d true tree, after with
  | .error m, _ => .error (m.message cs)
  | .ok _, some f => .error (f.message cs)
  | .ok x, none => .ok x

end Workbench.Json

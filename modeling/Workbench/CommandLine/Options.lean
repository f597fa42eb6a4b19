import Workbench.Number.Words
set_option autoImplicit false

namespace Workbench.CommandLine

inductive Halt where
  | misuse | help | version
  deriving DecidableEq, Repr

/-- What an option does to the settings read so far; it may be refused there. -/
inductive Effect (σ : Type) where
  | mark (set : σ → Option σ)
  | value (set : String → σ → Option σ)
  | halt (h : Halt)

structure OptionSpec (σ : Type) where
  long : String
  short : Option Char
  effect : Effect σ

namespace OptionSpec

variable {σ τ : Type}

def onFirst (o : OptionSpec σ) : OptionSpec (σ × τ) :=
  { o with effect := match o.effect with
      | .mark set => .mark fun s => (set s.1).map (·, s.2)
      | .value set => .value fun v s => (set v s.1).map (·, s.2)
      | .halt h => .halt h }

def onSecond (o : OptionSpec τ) : OptionSpec (σ × τ) :=
  { o with effect := match o.effect with
      | .mark set => .mark fun s => (set s.2).map (s.1, ·)
      | .value set => .value fun v s => (set v s.2).map (s.1, ·)
      | .halt h => .halt h }

end OptionSpec

inductive Argument where
  | separator
  | long (name : String) (attached : Option String)
  | short (letters : List Char)
  | plain
  deriving DecidableEq, Repr

/-- A lone hyphen is plain. -/
def Argument.of (a : String) : Argument :=
  match a.toList with
  | ['-', '-'] => .separator
  | '-' :: '-' :: cs =>
    let name := cs.takeWhile (· != '=')
    match cs.drop name.length with
    | _ :: v => .long (String.ofList name) (some (String.ofList v))
    | [] => .long (String.ofList name) none
  | '-' :: c :: cs => .short (c :: cs)
  | _ => .plain

def isPlain (a : String) : Bool := Argument.of a == .plain

section

variable {σ : Type}

def accepted (s : Option σ) : Except Halt σ :=
  match s with
  | some s => .ok s
  | none => .error .misuse

/-- The value that stands behind a letter in its cluster, with or without an equals sign. -/
def attachedValue : List Char → String
  | '=' :: v => String.ofList v
  | v => String.ofList v

/-- Reads letters that stand together; the last may want a value that is still to come. -/
def readLetters (specs : List (OptionSpec σ)) :
    List Char → σ → Except Halt (σ × Option (String → σ → Option σ))
  | [], s => .ok (s, none)
  | c :: cs, s =>
    match specs.find? fun o => o.short == some c with
    | none => .error .misuse
    | some ⟨_, _, .halt h⟩ => .error h
    | some ⟨_, _, .mark set⟩ => do readLetters specs cs (← accepted (set s))
    | some ⟨_, _, .value set⟩ =>
      if cs.isEmpty then .ok (s, some set)
      else do return (← accepted (set (attachedValue cs) s), none)

inductive Stop (σ : Type) where
  | finished (s : σ)
  | plain (s : σ) (argument : String) (rest : List String)
  | separator (s : σ) (rest : List String)

/-- Reads options up to the first argument that is none. A value may not look like an option. -/
def readOptions (specs : List (OptionSpec σ)) (s : σ) : List String → Except Halt (Stop σ)
  | [] => .ok (.finished s)
  | a :: rest =>
    match Argument.of a with
    | .separator => .ok (.separator s rest)
    | .plain => .ok (.plain s a rest)
    | .long name attached =>
      match specs.find? fun o => o.long == name, attached with
      | none, _ => .error .misuse
      | some ⟨_, _, .halt h⟩, none => .error h
      | some ⟨_, _, .mark set⟩, none => do readOptions specs (← accepted (set s)) rest
      | some ⟨_, _, .halt _⟩, some _ | some ⟨_, _, .mark _⟩, some _ => .error .misuse
      | some ⟨_, _, .value set⟩, some v => do readOptions specs (← accepted (set v s)) rest
      | some ⟨_, _, .value set⟩, none =>
        match rest with
        | [] => .error .misuse
        | v :: rest =>
          if isPlain v then do readOptions specs (← accepted (set v s)) rest else .error .misuse
    | .short letters =>
      match readLetters specs letters s with
      | .error h => .error h
      | .ok (s, none) => readOptions specs s rest
      | .ok (s, some set) =>
        match rest with
        | [] => .error .misuse
        | v :: rest =>
          if isPlain v then do readOptions specs (← accepted (set v s)) rest else .error .misuse

end

def once {α : Type} (old : Option α) (new : α) : Option (Option α) :=
  match old with
  | none => some (some new)
  | some _ => none

/-- A whole number below 2^64, with an optional plus sign. -/
def natural? (v : String) : Option Nat :=
  let digits := match v.toList with
    | '+' :: ds => ds
    | ds => ds
  if digits.isEmpty || !digits.all Char.isDigit then none
  else
    let n := digits.foldl (fun n c => n * 10 + (c.toNat - '0'.toNat)) 0
    if n < Words.span 64 then some n else none

end Workbench.CommandLine

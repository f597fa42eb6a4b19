import Workbench.Text.Raw
set_option autoImplicit false

namespace Workbench.Shell

inductive Change where
  | orElse | orAssign | orFail | ifSet | dropShortEnd | dropLongEnd | dropShortStart | dropLongStart
  deriving DecidableEq, Repr

inductive ParameterUse where
  | value
  | length
  /-- With a colon an empty value counts as none. -/
  | change (how : Change) (emptyIsUnset : Bool) (word : Raw)
  /-- Refused when the word is expanded. -/
  | malformed
  deriving DecidableEq, Repr

inductive Part where
  | literal (quoted : Bool) (text : Raw)
  | parameter (quoted : Bool) (name : Raw) (use : ParameterUse)
  | command (quoted : Bool) (source : Raw)
  | arithmetic (quoted : Bool) (source : Raw)
  deriving DecidableEq, Repr

abbrev Word := List Part

inductive Redirection where
  | read | write | append | readWrite | duplicate | hereDocument
  deriving DecidableEq, Repr

structure Redirect where
  descriptor : Nat
  how : Redirection
  target : Word
  deriving DecidableEq, Repr

structure Assignment where
  name : Raw
  value : Word
  deriving DecidableEq, Repr

structure Simple where
  line : Nat
  assignments : List Assignment
  words : List Word
  redirects : List Redirect
  deriving DecidableEq, Repr

inductive Command where
  | simple (s : Simple)
  | pipeline (negated : Bool) (parts : List Command)
  | both (first second : Command)
  | either (first second : Command)
  | background (c : Command)
  | group (body : List Command) (redirects : List Redirect)
  | subshell (body : List Command) (redirects : List Redirect)
  | choose (condition body otherwise : List Command) (redirects : List Redirect)
  | loop (untilTrue : Bool) (condition body : List Command) (redirects : List Redirect)
  | forEach (name : Raw) (words : Option (List Word)) (body : List Command)
      (redirects : List Redirect)
  | cases (word : Word) (arms : List (List Word × List Command)) (redirects : List Redirect)
  | define (name : Raw) (body : Command)

structure SyntaxError where
  line : Nat
  problem : String
  deriving DecidableEq, Repr

end Workbench.Shell

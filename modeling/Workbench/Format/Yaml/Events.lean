import Workbench.Format.Yaml.Tokens
set_option autoImplicit false

/-! The event sequence of a token sequence: a pushdown automaton whose stack says what follows the
node being read. Nodes that are left out are read as empty scalars. -/

namespace Workbench.Yaml

inductive EventKind where
  | streamStart | streamEnd | documentStart | documentEnd
  | alias (name : List Char)
  | scalar (anchor : Option (List Char)) (tag : Option TagBytes) (text : List Char)
      (style : ScalarStyle)
  | sequenceStart (anchor : Option (List Char)) (tag : Option TagBytes)
  | sequenceEnd
  | mappingStart (anchor : Option (List Char)) (tag : Option TagBytes)
  | mappingEnd
  deriving DecidableEq, Repr

structure Event where
  kind : EventKind
  mark : Mark
  deriving DecidableEq, Repr

inductive Expect where
  | streamStart | firstDocument | document | content | documentEnd | blockNode
  | firstBlockEntry | blockEntry | indentlessEntry
  | firstBlockKey | blockKey | blockValue
  | firstFlowEntry | flowEntry | flowPairKey | flowPairValue | flowPairEnd
  | firstFlowKey | flowKey | flowValue | flowNoValue
  | nothing
  deriving DecidableEq, Repr

structure Automaton where
  tokens : List Token
  expect : Expect
  /-- What to expect after the nodes being read, the innermost first. -/
  next : List Expect
  begun : List Mark
  handles : List (List Char × TagBytes)
  deriving DecidableEq, Repr

namespace Automaton

/-- Nothing when the tokens have run out, else an event or a fault. -/
abbrev Reaction := Option (Read (Event × Automaton))

variable (s : Automaton)

def skip : Automaton := { s with tokens := s.tokens.tail }

def goTo (e : Expect) : Automaton := { s with expect := e }

def later (e : Expect) : Automaton := { s with next := e :: s.next }

def resume : Automaton := { s with expect := s.next.headD .nothing, next := s.next.tail }

def enter (m : Mark) : Automaton := { s with begun := m :: s.begun }

def leave : Automaton := { s with begun := s.begun.tail }

def emit (kind : EventKind) (m : Mark) : Reaction := some (.ok (⟨kind, m⟩, s))

def empty (m : Mark) : Reaction := s.emit (.scalar none none [] .plain) m

def refuse (problem : Problem) (mark : Mark) (context : Option (Activity × Mark)) : Reaction :=
  some (.error ⟨problem, mark, 0, context⟩)

def faultIn (activity : Activity) (problem : Problem) (mark : Mark) : Reaction :=
  refuse problem mark (some (activity, s.begun.headD Mark.start))

def defaultHandles : List (List Char × TagBytes) :=
  [(['!'], Utf8.encode ['!']), (['!', '!'], Utf8.encode "tag:yaml.org,2002:".toList)]

/-- Reads the directives in front of a document. Those of the document hide the defaults. -/
def readDirectives : List Token → Bool → List (List Char × TagBytes) →
    Read (List Token × List (List Char × TagBytes))
  | ⟨.version major minor, m, _⟩ :: ts, versioned, hs =>
    if versioned then .error ⟨.duplicateVersion, m, 0, none⟩
    else if major ≠ 1 || (minor ≠ 1 && minor ≠ 2) then .error ⟨.badVersion, m, 0, none⟩
    else readDirectives ts true hs
  | ⟨.tagDirective h stem, m, _⟩ :: ts, versioned, hs =>
    if hs.any (·.1 == h) then .error ⟨.duplicateTagDirective, m, 0, none⟩
    else readDirectives ts versioned (hs ++ [(h, stem)])
  | ts, _, hs => .ok (ts, hs ++ defaultHandles.filter fun d => !hs.any (·.1 == d.1))

def isDirective : TokenKind → Bool
  | .version _ _ | .tagDirective _ _ => true
  | _ => false

def startDocument (implicitOk : Bool) : Reaction :=
  let tokens := if implicitOk then s.tokens else s.tokens.dropWhile fun t => t.kind == .documentEnd
  match tokens with
  | [] => none
  | t :: _ =>
    if t.kind == .streamEnd then
      (({ s with tokens := tokens } : Automaton).skip.goTo .nothing).emit .streamEnd t.start
    else if implicitOk && !isDirective t.kind && t.kind != .documentStart then
      let s := { s with handles := defaultHandles }
      ((s.later .documentEnd).goTo .blockNode).emit .documentStart t.start
    else match readDirectives tokens false [] with
      | .error f => some (.error f)
      | .ok (ts, handles) =>
        match ts with
        | [] => none
        | d :: ts =>
          if d.kind != .documentStart then refuse .noDocumentStart d.start none
          else
            let s := { s with tokens := ts, handles := handles }
            ((s.later .documentEnd).goTo .content).emit .documentStart t.start

structure Properties where
  anchor : Option (List Char)
  tag : Option (List Char × TagBytes × Mark)
  start : Mark
  deriving DecidableEq, Repr

def readProperties (here : Mark) : List Token → Properties × List Token
  | ⟨.anchor a, m, _⟩ :: ⟨.tag h x, n, _⟩ :: ts => (⟨some a, some (h, x, n), m⟩, ts)
  | ⟨.tag h x, m, _⟩ :: ⟨.anchor a, _, _⟩ :: ts => (⟨some a, some (h, x, m), m⟩, ts)
  | ⟨.anchor a, m, _⟩ :: ts => (⟨some a, none, m⟩, ts)
  | ⟨.tag h x, m, _⟩ :: ts => (⟨none, some (h, x, m), m⟩, ts)
  | ts => (⟨none, none, here⟩, ts)

def resolveTag (p : Properties) : Read (Option TagBytes) :=
  match p.tag with
  | none => .ok none
  | some ([], x, _) => .ok (some x)
  | some (h, x, m) =>
    match s.handles.find? (·.1 == h) with
    | some (_, stem) => .ok (some (stem ++ x))
    | none => .error ⟨.unknownHandle, m, 0, some (.node, p.start)⟩

/-- The tag `!` alone says no more than that there is a tag. -/
def bareTag : TagBytes := Utf8.encode ['!']

def orEmpty (block : Bool) (p : Properties) (tag : Option TagBytes) (t : Token) : Reaction :=
  if p.anchor.isSome || tag.isSome then
    s.resume.emit (.scalar p.anchor tag [] .plain) p.start
  else refuse .noNode t.start (some (if block then .blockNode else .flowNode, p.start))

def readContent (block indentless : Bool) (p : Properties) (tag : Option TagBytes) : Reaction :=
  match s.tokens with
  | [] => none
  | t :: _ =>
    match t.kind with
    | .blockEntry =>
      if indentless then (s.goTo .indentlessEntry).emit (.sequenceStart p.anchor tag) p.start
      else s.orEmpty block p tag t
    | .scalar text style =>
      let tag := if tag == some bareTag then none else tag
      s.skip.resume.emit (.scalar p.anchor tag text style) p.start
    | .flowSequenceStart => (s.goTo .firstFlowEntry).emit (.sequenceStart p.anchor tag) p.start
    | .flowMappingStart => (s.goTo .firstFlowKey).emit (.mappingStart p.anchor tag) p.start
    | .blockSequenceStart =>
      if block then (s.goTo .firstBlockEntry).emit (.sequenceStart p.anchor tag) p.start
      else s.orEmpty block p tag t
    | .blockMappingStart =>
      if block then (s.goTo .firstBlockKey).emit (.mappingStart p.anchor tag) p.start
      else s.orEmpty block p tag t
    | _ => s.orEmpty block p tag t

def readNode (block indentless : Bool) : Reaction :=
  match s.tokens with
  | [] => none
  | t :: ts =>
    match t.kind with
    | .alias name => s.skip.resume.emit (.alias name) t.start
    | _ =>
      let (p, rest) := readProperties t.start (t :: ts)
      match rest with
      | [] => none
      | _ :: _ =>
        let s := { s with tokens := rest }
        match s.resolveTag p with
        | .error f => some (.error f)
        | .ok tag => s.readContent block indentless p tag

def nodeUnless (stops : List TokenKind) (block indentless : Bool) (next : Expect) (m : Mark) :
    Reaction :=
  match s.tokens with
  | [] => none
  | t :: _ =>
    if stops.contains t.kind then (s.goTo next).empty m
    else (s.later next).readNode block indentless

def closeWith (kind : EventKind) (t : Token) : Reaction := s.skip.resume.leave.emit kind t.start

def readBlockEntry (t : Token) : Reaction :=
  match t.kind with
  | .blockEntry => s.skip.nodeUnless [.blockEntry, .blockEnd] true false .blockEntry t.stop
  | .blockEnd => s.closeWith .sequenceEnd t
  | _ => s.faultIn .blockCollection .noDash t.start

def readIndentlessEntry (t : Token) : Reaction :=
  match t.kind with
  | .blockEntry =>
    s.skip.nodeUnless [.blockEntry, .key, .value, .blockEnd] true false .indentlessEntry t.stop
  | _ => s.resume.emit .sequenceEnd t.start

def readBlockKey (t : Token) : Reaction :=
  match t.kind with
  | .key => s.skip.nodeUnless [.key, .value, .blockEnd] true true .blockValue t.stop
  | .blockEnd => s.closeWith .mappingEnd t
  | _ => s.faultIn .blockMapping .noKey t.start

def readBlockValue (t : Token) : Reaction :=
  match t.kind with
  | .value => s.skip.nodeUnless [.key, .value, .blockEnd] true true .blockKey t.stop
  | _ => (s.goTo .blockKey).empty t.start

def flowEntryBody (t : Token) : Reaction :=
  match t.kind with
  | .flowSequenceEnd => s.closeWith .sequenceEnd t
  | .key => (s.skip.goTo .flowPairKey).emit (.mappingStart none none) t.start
  | _ => (s.later .flowEntry).readNode false false

def readFlowEntry (t : Token) : Reaction :=
  match t.kind with
  | .flowSequenceEnd => s.closeWith .sequenceEnd t
  | .flowEntry =>
    match s.skip.tokens with
    | [] => none
    | u :: _ => s.skip.flowEntryBody u
  | _ => s.faultIn .flowSequence .noSequenceSeparator t.start

/-- A pair inside a flow sequence. What stands in the place of its missing key is passed over. -/
def readFlowPairKey (t : Token) : Reaction :=
  match t.kind with
  | .value | .flowEntry | .flowSequenceEnd => (s.skip.goTo .flowPairValue).empty t.stop
  | _ => (s.later .flowPairValue).readNode false false

def flowValueOr (stops : List TokenKind) (next : Expect) (t : Token) : Reaction :=
  if t.kind == .value then
    match s.skip.tokens with
    | [] => none
    | u :: _ => s.skip.nodeUnless stops false false next u.start
  else (s.goTo next).empty t.start

def flowKeyBody (t : Token) : Reaction :=
  match t.kind with
  | .flowMappingEnd => s.closeWith .mappingEnd t
  | .key =>
    match s.skip.tokens with
    | [] => none
    | u :: _ =>
      s.skip.nodeUnless [.value, .flowEntry, .flowMappingEnd] false false .flowValue u.start
  | _ => (s.later .flowNoValue).readNode false false

def readFlowKey (t : Token) : Reaction :=
  match t.kind with
  | .flowMappingEnd => s.closeWith .mappingEnd t
  | .flowEntry =>
    match s.skip.tokens with
    | [] => none
    | u :: _ => s.skip.flowKeyBody u
  | _ => s.faultIn .flowMapping .noMappingSeparator t.start

def readDocumentContent (t : Token) : Reaction :=
  match t.kind with
  | .version _ _ | .tagDirective _ _ | .documentStart | .documentEnd | .streamEnd =>
    s.resume.empty t.start
  | _ => s.readNode true false

def endDocument (t : Token) : Reaction :=
  let s := if t.kind == .documentEnd then s.skip else s
  (({ s with handles := [] } : Automaton).goTo .document).emit .documentEnd t.start

def inside (t : Token) (read : Automaton → Token → Reaction) : Reaction :=
  let s := (s.enter t.start).skip
  match s.tokens with
  | [] => none
  | u :: _ => read s u

def step : Reaction :=
  match s.tokens with
  | [] => none
  | t :: _ =>
    match s.expect with
    | .streamStart => (s.skip.goTo .firstDocument).emit .streamStart t.start
    | .firstDocument => s.startDocument true
    | .document => s.startDocument false
    | .content => s.readDocumentContent t
    | .documentEnd => s.endDocument t
    | .blockNode => s.readNode true false
    | .firstBlockEntry => s.inside t readBlockEntry
    | .blockEntry => s.readBlockEntry t
    | .indentlessEntry => s.readIndentlessEntry t
    | .firstBlockKey => s.inside t readBlockKey
    | .blockKey => s.readBlockKey t
    | .blockValue => s.readBlockValue t
    | .firstFlowEntry => s.inside t flowEntryBody
    | .flowEntry => s.readFlowEntry t
    | .flowPairKey => s.readFlowPairKey t
    | .flowPairValue => s.flowValueOr [.flowEntry, .flowSequenceEnd] .flowPairEnd t
    | .flowPairEnd => (s.goTo .flowEntry).emit .mappingEnd t.start
    | .firstFlowKey => s.inside t flowKeyBody
    | .flowKey => s.readFlowKey t
    | .flowValue => s.flowValueOr [.flowEntry, .flowMappingEnd] .flowKey t
    | .flowNoValue => (s.goTo .flowKey).empty t.start
    | .nothing => none

end Automaton

structure Events where
  items : List Event
  fault : Option Fault
  deriving DecidableEq, Repr

namespace Events

def collect (tokenFault : Option Fault) : Nat → List Event → Automaton → Events
  | 0, acc, _ => ⟨acc.reverse, tokenFault⟩
  | fuel + 1, acc, s =>
    match s.step with
    | none => ⟨acc.reverse, if s.expect = .nothing then none else tokenFault⟩
    | some (.error f) => ⟨acc.reverse, some f⟩
    | some (.ok (e, s)) => collect tokenFault fuel (e :: acc) s

/-- A token yields three events at most beside those of the document. -/
def ofTokens (ts : Tokens) : Events :=
  collect ts.fault (4 * ts.items.length + 8) [] ⟨ts.items, .streamStart, [], [], []⟩

def ofText (text : List Char) : Events := ofTokens (Tokens.ofText text)

end Events
end Workbench.Yaml

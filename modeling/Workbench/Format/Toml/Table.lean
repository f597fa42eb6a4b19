import Workbench.Json.Basic
set_option autoImplicit false

/-! The table tree that a TOML text builds. A table remembers whether it was only implied by a
longer path and whether dotted keys made it, because both decide who may still add to it. -/

namespace Workbench.Toml

inductive Node where
  | leaf (v : Json)
  | table (implied dotted : Bool) (entries : List (String × Node))
  | tables (rows : List (List (String × Node)))
  deriving Repr, Inhabited

abbrev Nodes := List (String × Node)

structure Open where
  implied : Bool
  dotted : Bool
  entries : Nodes
  deriving Repr, Inhabited

/-- A key that is taken, or a path through something that is no open table. -/
inductive Clash where
  | taken (key : String)
  deriving DecidableEq, Repr

mutual
def Node.toJson : Node → Json
  | .leaf v => v
  | .table _ _ es => .object (entriesToJson es)
  | .tables rows => .array (rowsToJson rows)

def entriesToJson : Nodes → List (String × Json)
  | [] => []
  | (k, n) :: es => (k, n.toJson) :: entriesToJson es

def rowsToJson : List Nodes → List Json
  | [] => []
  | r :: rs => .object (entriesToJson r) :: rowsToJson rs
end

/-- Applies `f` to the table at the end of a path, making implied tables on the way. A path of
dotted keys stays within implied tables; a header's path goes through any table and through the
last row of a list of tables. -/
def descend (dotted : Bool) (f : Open → Except Clash Open) :
    List String → Open → Except Clash Open
  | [], t => f t
  | k :: ks, t => do
    let n ← match Entries.find? k t.entries with
      | none => do
        let inner ← descend dotted f ks ⟨true, dotted, []⟩
        pure (Node.table inner.implied inner.dotted inner.entries)
      | some (.table implied made es) =>
        if dotted && !implied then .error (.taken k)
        else do
          let inner ← descend dotted f ks ⟨implied, made, es⟩
          pure (Node.table inner.implied inner.dotted inner.entries)
      | some (.tables rows) =>
        match rows.getLast? with
        | none => .error (.taken k)
        | some row => do
          let inner ← descend dotted f ks ⟨false, false, row⟩
          pure (Node.tables (rows.dropLast ++ [inner.entries]))
      | some (.leaf _) => .error (.taken k)
    pure { t with entries := Entries.insert k n t.entries }

/-- Puts a value under the last key of a dotted path. A path of several keys ends in a table that
dotted keys made; a path of one key, in one they did not. -/
def Open.put (t : Open) (path : List String) (key : String) (v : Json) : Except Clash Open :=
  descend true (fun t =>
    if t.dotted == path.isEmpty then .error (.taken key)
    else if Entries.contains key t.entries then .error (.taken key)
    else .ok { t with entries := Entries.insert key (.leaf v) t.entries }) path t

/-- The tables of a document while it is read: those closed so far, and the open one with the path
it goes to. -/
structure Document where
  closed : Nodes
  current : Nodes
  path : List String
  isRow : Bool
  deriving Repr, Inhabited

def Document.start : Document := ⟨[], [], [], false⟩

def Document.keyValue (d : Document) (path : List String) (key : String) (v : Json) :
    Except Clash Document := do
  let t ← Open.put ⟨false, false, d.current⟩ path key v
  pure { d with current := t.entries }

def withRoot (closed : Nodes) (path : List String) (f : Open → Except Clash Open) :
    Except Clash Nodes :=
  (descend false f path ⟨false, false, closed⟩).map (·.entries)

def Document.close (d : Document) : Except Clash Document :=
  match d.path.getLast? with
  | none => .ok { d with closed := d.current, current := [] }
  | some key => do
    let closed ← withRoot d.closed d.path.dropLast fun t =>
      if d.isRow then
        match Entries.find? key t.entries with
        | none => .ok { t with entries := Entries.insert key (.tables [d.current]) t.entries }
        | some (.tables rows) =>
          .ok { t with entries := Entries.insert key (.tables (rows ++ [d.current])) t.entries }
        | some _ => .error (.taken key)
      else .ok { t with entries := Entries.insert key (.table false false d.current) t.entries }
    pure { d with closed, current := [], path := [], isRow := false }

/-- A `[path]` header. An implied table that no dotted key made is taken up again; any other entry
at the path is a clash. -/
def Document.openTable (d : Document) (path : List String) : Except Clash Document := do
  let d ← d.close
  match path.getLast? with
  | none => pure d
  | some key =>
    let parent ← withRoot d.closed path.dropLast fun t => .ok t
    let found ← lookup parent path.dropLast key
    let closed ← withRoot parent path.dropLast fun t =>
      .ok { t with entries := Entries.erase key t.entries }
    pure ⟨closed, found, path, false⟩
where
  lookup : Nodes → List String → String → Except Clash Nodes
    | es, [], key =>
      match Entries.find? key es with
      | none => .ok []
      | some (.table true false inner) => .ok inner
      | some _ => .error (.taken key)
    | es, k :: ks, key =>
      match Entries.find? k es with
      | some (.table _ _ inner) => lookup inner ks key
      | some (.tables rows) => lookup (rows.getLast?.getD []) ks key
      | _ => .error (.taken k)

def Document.openRow (d : Document) (path : List String) : Except Clash Document := do
  let d ← d.close
  match path.getLast? with
  | none => pure d
  | some key =>
    let closed ← withRoot d.closed path.dropLast fun t =>
      match Entries.find? key t.entries with
      | none => .ok t
      | some (.tables _) => .ok t
      | some _ => .error (.taken key)
    pure ⟨closed, [], path, true⟩

def Document.toJson (d : Document) : Except Clash Json := do
  let d ← d.close
  pure (.object (entriesToJson d.closed))

end Workbench.Toml

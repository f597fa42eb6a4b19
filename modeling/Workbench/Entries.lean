set_option autoImplicit false

/-! Association lists in ascending key order with one entry per key. `insert` keeps the order,
and `find?` after `insert` sees the new value at its key and the old ones elsewhere. -/

namespace Workbench

abbrev Entries (α : Type) := List (String × α)

namespace Entries

variable {α β : Type}

def find? (k : String) : Entries α → Option α
  | [] => none
  | (k', v) :: es => if k = k' then some v else find? k es

def contains (k : String) (es : Entries α) : Bool := (find? k es).isSome

/-- The later value stands when the key is there already. -/
def insert (k : String) (v : α) : Entries α → Entries α
  | [] => [(k, v)]
  | (k', v') :: es =>
    if k = k' then (k, v) :: es
    else if k < k' then (k, v) :: (k', v') :: es
    else (k', v') :: insert k v es

def erase (k : String) : Entries α → Entries α
  | [] => []
  | (k', v) :: es => if k = k' then es else (k', v) :: erase k es

def modify (k : String) (f : Option α → α) (es : Entries α) : Entries α :=
  insert k (f (find? k es)) es

def ofList (ps : List (String × α)) : Entries α :=
  ps.foldl (fun es p => insert p.1 p.2 es) []

def overlay (under upper : Entries α) : Entries α :=
  upper.foldl (fun es p => insert p.1 p.2 es) under

def keys (es : Entries α) : List String := es.map (·.1)

def values (es : Entries α) : List α := es.map (·.2)

def mapValues (f : α → β) (es : Entries α) : Entries β := es.map fun p => (p.1, f p.2)

def Ordered (es : Entries α) : Prop := es.Pairwise fun p q => p.1 < q.1

@[simp] theorem find?_insert_self (k : String) (v : α) (es : Entries α) :
    find? k (insert k v es) = some v := by
  induction es with
  | nil => simp [insert, find?]
  | cons e es ih =>
    obtain ⟨k', v'⟩ := e
    by_cases h : k = k'
    · simp [insert, find?, h]
    · by_cases h' : k < k' <;> simp [insert, find?, h, h', ih]

theorem find?_insert_other {k j : String} (hne : j ≠ k) (v : α) (es : Entries α) :
    find? j (insert k v es) = find? j es := by
  induction es with
  | nil => simp [insert, find?, hne]
  | cons e es ih =>
    obtain ⟨k', v'⟩ := e
    by_cases h : k = k'
    · subst h; simp [insert, find?, hne]
    · by_cases h' : k < k'
      · simp [insert, find?, h, h', hne]
      · by_cases hj : j = k' <;> simp [insert, find?, h, h', hj, ih]

end Entries
end Workbench

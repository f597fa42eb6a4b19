import Workbench.Format.Toml
import Workbench.Proofs.WellFormed
set_option autoImplicit false

namespace Workbench

namespace Scan

variable {α β : Type}

/-- All that a scanner succeeds with has a property. -/
def Yields (s : Scan α) (P : α → Prop) : Prop := ∀ c a c', s c = .done a c' → P a

variable {s : Scan α} {P : α → Prop} {Q : β → Prop}

theorem Yields.pure {a : α} (h : P a) : Yields (Pure.pure a) P := by
  intro c b c' hb
  cases hb
  exact h

theorem Yields.bind {f : α → Scan β} (h : s.Yields P) (hf : ∀ a, P a → (f a).Yields Q) :
    Yields (s >>= f) Q := by
  intro c b c' hb
  dsimp only [Bind.bind] at hb
  cases hs : s c with
  | done a c₁ =>
    rw [hs] at hb
    exact hf a (h c a c₁ hs) c₁ b c' hb
  | miss o => rw [hs] at hb; cases hb
  | halt o => rw [hs] at hb; cases hb

theorem yields_true (s : Scan α) : s.Yields fun _ => True := fun _ _ _ _ => trivial

theorem Yields.after {f : α → Scan β} (hf : ∀ a, (f a).Yields Q) : Yields (s >>= f) Q :=
  (yields_true s).bind fun a _ => hf a

theorem Yields.fail : (fail : Scan α).Yields P := by
  intro c a c' h
  cases h

theorem map_eq_bind (f : α → β) (s : Scan α) : s.map f = s >>= fun a => pure (f a) := rfl

theorem Yields.map {f : α → β} (h : s.Yields fun a => Q (f a)) : (s.map f).Yields Q := by
  rw [map_eq_bind]
  exact h.bind fun _ ha => .pure ha

theorem Yields.must (h : s.Yields P) : s.must.Yields P := by
  intro c a c' ha
  unfold Scan.must at ha
  cases hs : s c with
  | done b c₁ =>
    rw [hs] at ha
    exact h c a c' (hs.trans ha)
  | miss o => rw [hs] at ha; cases ha
  | halt o => rw [hs] at ha; cases ha

theorem Yields.or {t : Scan α} (h : s.Yields P) (ht : t.Yields P) : (s.or t).Yields P := by
  intro c a c' ha
  unfold Scan.or at ha
  cases hs : s c with
  | done b c₁ =>
    rw [hs] at ha
    exact h c a c' (hs.trans ha)
  | miss o =>
    rw [hs] at ha
    exact ht c a c' ha
  | halt o => rw [hs] at ha; cases ha

theorem Yields.maybe (h : s.Yields P) : s.maybe.Yields fun o => ∀ a ∈ o, P a := by
  intro c o c' ho a ha
  unfold Scan.maybe at ho
  cases hs : s c with
  | done b c₁ =>
    rw [hs] at ho
    cases ho
    cases ha
    exact h c a c' hs
  | miss o => rw [hs] at ho; cases ho; cases ha
  | halt o => rw [hs] at ho; cases ho

theorem Yields.require {f : α → Option β} (h : s.Yields P)
    (hf : ∀ a b, P a → f a = some b → Q b) : (s.require f).Yields Q := by
  intro c b c' hb
  unfold Scan.require at hb
  cases hs : s c with
  | done a c₁ =>
    rw [hs] at hb
    dsimp only at hb
    cases hfa : f a with
    | none => rw [hfa] at hb; cases hb
    | some b' =>
      rw [hfa] at hb
      cases hb
      exact hf a b (h c a c' hs) hfa
  | miss o => rw [hs] at hb; cases hb
  | halt o => rw [hs] at hb; cases hb

theorem Yields.manyUpTo (h : s.Yields P) (n : Nat) :
    (s.manyUpTo n).Yields fun as => ∀ a ∈ as, P a := by
  induction n with
  | zero => exact Yields.pure (by simp)
  | succ n ih =>
    intro c as c' has
    rw [Scan.manyUpTo] at has
    beta_reduce at has
    cases hs : s c with
    | done a c₁ =>
      rw [hs] at has
      dsimp only at has
      cases hrest : s.manyUpTo n c₁ with
      | done bs c₂ =>
        rw [hrest] at has
        cases has
        exact List.forall_mem_cons.mpr ⟨h c a c₁ hs,ih c₁ bs c' hrest⟩
      | miss o => rw [hrest] at has; cases has
      | halt o => rw [hrest] at has; cases has
    | miss o =>
      rw [hs] at has
      cases has
      simp
    | halt o => rw [hs] at has; cases has

theorem Yields.sepBy {sep : Scan β} (h : s.Yields P) :
    (s.sepBy sep).Yields fun as => ∀ a ∈ as, P a := by
  have hmany : (many (do let _ ← sep; s)).Yields fun as => ∀ a ∈ as, P a :=
    fun c => Yields.manyUpTo (Yields.after fun _ => h) (c.rest.length + 1) c
  have hone : (s.sepBy1 sep).Yields fun as => ∀ a ∈ as, P a :=
    h.bind fun a ha => hmany.bind fun as has => .pure (List.forall_mem_cons.mpr ⟨ha,has⟩)
  refine hone.maybe.bind fun o ho => ?_
  cases o with
  | none => exact .pure (by simp)
  | some as => exact .pure (ho as rfl)

end Scan

namespace Toml

theorem entriesToJson_eq_map (es : Nodes) :
    entriesToJson es = es.map fun e => (e.1, e.2.toJson) := by
  induction es with
  | nil => rfl
  | cons e es ih => rw [entriesToJson, ih, List.map_cons]

theorem entriesToJson_insert (k : String) (n : Node) (es : Nodes) :
    entriesToJson (Entries.insert k n es) = Entries.insert k n.toJson (entriesToJson es) := by
  induction es with
  | nil => rfl
  | cons e es ih =>
    obtain ⟨k',n'⟩ := e
    simp only [Entries.insert, entriesToJson]
    split_ifs <;> simp only [entriesToJson, ih]

theorem rowsToJson_eq_map (rows : List Nodes) :
    rowsToJson rows = rows.map fun r => .object (entriesToJson r) := by
  induction rows with
  | nil => rfl
  | cons r rows ih => rw [rowsToJson, ih, List.map_cons]

def Nodes.WellFormed (es : Nodes) : Prop := (Json.object (entriesToJson es)).WellFormed

namespace Nodes

theorem wellFormed_nil : Nodes.WellFormed [] :=
  Json.wellFormed_object.mpr (by simp [entriesToJson, Entries.Ordered])

theorem WellFormed.insert {es : Nodes} (h : es.WellFormed) (k : String) {n : Node}
    (hn : n.toJson.WellFormed) : Nodes.WellFormed (Entries.insert k n es) := by
  rw [Nodes.WellFormed, entriesToJson_insert]
  exact Json.wellFormed_insert h k hn

theorem WellFormed.erase {es : Nodes} (h : es.WellFormed) (k : String) :
    Nodes.WellFormed (Entries.erase k es) := by
  rw [Nodes.WellFormed, entriesToJson_eq_map]
  have hes := h
  rw [Nodes.WellFormed, entriesToJson_eq_map] at hes
  exact Json.wellFormed_sublist hes ((Entries.erase_sublist k es).map _)

theorem WellFormed.of_find? {es : Nodes} (h : es.WellFormed) {k : String} {n : Node}
    (hn : Entries.find? k es = some n) : n.toJson.WellFormed := by
  rw [Nodes.WellFormed, entriesToJson_eq_map] at h
  exact (Json.wellFormed_object.mp h).2 _
    (List.mem_map_of_mem (f := fun e => (e.1, e.2.toJson)) (Entries.mem_of_find? hn))

end Nodes

theorem toJson_table {implied dotted : Bool} {es : Nodes} :
    (Node.table implied dotted es).toJson.WellFormed ↔ es.WellFormed := by
  rw [Node.toJson]
  rfl

theorem toJson_tables {rows : List Nodes} :
    (Node.tables rows).toJson.WellFormed ↔ ∀ r ∈ rows, r.WellFormed := by
  rw [Node.toJson, Json.wellFormed_array, rowsToJson_eq_map, List.forall_mem_map]
  rfl

theorem toJson_tables_append {rows : List Nodes} (hrows : ∀ r ∈ rows, r.WellFormed) {row : Nodes}
    (hrow : row.WellFormed) : (Node.tables (rows ++ [row])).toJson.WellFormed := by
  refine toJson_tables.mpr fun r hr => ?_
  rcases List.mem_append.mp hr with hr | hr
  · exact hrows r hr
  · rw [List.mem_singleton.mp hr]
    exact hrow

/-- A change of one table that keeps it well-formed. -/
def Keeps (f : Open → Except Clash Open) : Prop :=
  ∀ t t', t.entries.WellFormed → f t = .ok t' → t'.entries.WellFormed

theorem exists_of_bind {α β : Type} {x : Except Clash α} {f : α → Except Clash β} {b : β}
    (h : (x >>= f) = .ok b) : ∃ a, x = .ok a ∧ f a = .ok b := by
  cases x with
  | error e => cases h
  | ok a => exact ⟨a,rfl,h⟩

theorem Keeps.descend {f : Open → Except Clash Open} (hf : Keeps f) (dotted : Bool)
    (path : List String) : Keeps (descend dotted f path) := by
  induction path with
  | nil => exact hf
  | cons k path ih =>
    intro t t' ht h
    rw [Toml.descend] at h
    cases hfind : Entries.find? k t.entries with
    | none =>
      rw [hfind] at h
      obtain ⟨inner,hinner,h⟩ := exists_of_bind h
      cases h
      exact ht.insert k (toJson_table.mpr (ih _ _ Nodes.wellFormed_nil hinner))
    | some old =>
      have hold := ht.of_find? hfind
      rw [hfind] at h
      cases old with
      | leaf v => cases h
      | table implied made es =>
        dsimp only at h
        split_ifs at h
        · cases h
        · obtain ⟨inner,hinner,h⟩ := exists_of_bind h
          cases h
          exact ht.insert k (toJson_table.mpr (ih _ _ (toJson_table.mp hold) hinner))
      | tables rows =>
        have hrows := toJson_tables.mp hold
        dsimp only at h
        cases hlast : rows.getLast? with
        | none => rw [hlast] at h; cases h
        | some row =>
          rw [hlast] at h
          obtain ⟨inner,hinner,h⟩ := exists_of_bind h
          cases h
          have hrest : ∀ r ∈ rows.dropLast, Nodes.WellFormed r :=
            fun r hr => hrows r (List.dropLast_subset rows hr)
          exact ht.insert k (toJson_tables_append hrest
            (ih _ _ (hrows row (List.mem_of_getLast? hlast)) hinner))

theorem wellFormed_put {t t' : Open} (ht : t.entries.WellFormed) {path : List String} {key : String}
    {v : Json} (hv : v.WellFormed) (h : t.put path key v = .ok t') : t'.entries.WellFormed := by
  refine Keeps.descend (fun t t' ht h => ?_) true path t t' ht h
  split_ifs at h
  cases h
  exact ht.insert key hv

theorem wellFormed_putAll {ps : List (List String × Json)} (hps : ∀ p ∈ ps, p.2.WellFormed)
    {t t' : Open} (ht : t.entries.WellFormed) (h : t.putAll ps = .ok t') :
    t'.entries.WellFormed := by
  induction ps generalizing t with
  | nil =>
    cases h
    exact ht
  | cons p ps ih =>
    obtain ⟨hp,hps⟩ := List.forall_mem_cons.mp hps
    obtain ⟨t₁,ht₁,hrest⟩ := exists_of_bind h
    exact ih hps (wellFormed_put ht hp ht₁) hrest

section Values

open Scan

theorem notFinite_yields : notFinite.Yields Json.WellFormed :=
  .after fun _ => .after fun _ => .pure (by simp [Json.WellFormed])

theorem float_yields : float.Yields Json.WellFormed := by
  refine .or ((yields_true _).require fun p v _ hv => ?_) notFinite_yields
  unfold floatValue at hv
  split at hv
  split at hv
  · cases hv
    simp [Json.WellFormed]
  · split_ifs at hv
    cases hv
    simp [Json.WellFormed]

theorem wellFormed_inWord {n : Int} {v : Json} (h : inWord n = some v) : v.WellFormed := by
  unfold inWord at h
  split_ifs at h
  cases h
  simp [Json.ofInt, Json.WellFormed]

theorem prefixed_yields (mark : Char) (base : Nat) (isDigit : Char → Bool) :
    (prefixed mark base isDigit).Yields Json.WellFormed :=
  (yields_true _).require fun _ _ _ => wellFormed_inWord

theorem integer_yields : integer.Yields Json.WellFormed := by
  intro c v c' h
  unfold integer at h
  split at h
  · exact prefixed_yields _ _ _ c v c' h
  · exact prefixed_yields _ _ _ c v c' h
  · exact prefixed_yields _ _ _ c v c' h
  · exact (yields_true wholeNumber).require (fun _ _ _ => wellFormed_inWord) c v c' h

theorem string_yields {s : Scan (List Char)} :
    (s.map fun cs => Json.string (String.ofList cs)).Yields Json.WellFormed :=
  .map fun _ _ _ _ => by simp [Json.WellFormed]

theorem number_yields : number.Yields Json.WellFormed :=
  (string_yields.or float_yields).or integer_yields

variable {s : Scan Json} (limit : Nat)

theorem arrayOf_yields (h : s.Yields Json.WellFormed) : (arrayOf s).Yields Json.WellFormed := by
  have hitem : Yields (do gaps; let v ← s; gaps; pure v) Json.WellFormed :=
    .after fun _ => h.bind fun _ hv => .after fun _ => .pure hv
  refine .after fun _ => hitem.sepBy.bind fun items hitems => ?_
  have hend : Yields (do must gaps; let _ ← must (one ']'); pure (Json.array items))
      Json.WellFormed :=
    .after fun _ => .after fun _ => .pure (Json.wellFormed_array.mpr hitems)
  split_ifs
  · exact .after fun _ => hend
  · exact hend

theorem pairOf_yields (h : s.Yields Json.WellFormed) :
    (pairOf limit s).Yields fun p => p.2.WellFormed :=
  .after fun _ => .after fun _ => .after fun _ => h.must.bind fun _ hv => .after fun _ => .pure hv

theorem inlineTableOf_yields (h : s.Yields Json.WellFormed) :
    (inlineTableOf limit s).Yields Json.WellFormed := by
  have hpairs : Yields (do let ps ← sepBy (pairOf limit s) (one ','); let _ ← blanks; pure ps)
      fun ps => ∀ p ∈ ps, p.2.WellFormed :=
    (pairOf_yields limit h).sepBy.bind fun _ hps => .after fun _ => .pure hps
  refine .after fun _ => (hpairs.require fun ps v hps hv => ?_).bind fun _ hv =>
    .after fun _ => .pure hv
  cases hput : Open.putAll ⟨false,false,[]⟩ ps with
  | error e => rw [hput] at hv; cases hv
  | ok t =>
    rw [hput] at hv
    cases hv
    exact wellFormed_putAll hps Nodes.wellFormed_nil hput

theorem valueWith_yields {array table : Scan Json} (harray : array.Yields Json.WellFormed)
    (htable : table.Yields Json.WellFormed) : (valueWith array table).Yields Json.WellFormed := by
  have hconst : ∀ {s : Scan Unit} {v : Json}, v.WellFormed →
      (s.map fun _ => v).Yields Json.WellFormed := fun hv => .map fun _ _ _ _ => hv
  refine .after fun x => ?_
  split
  · exact string_yields
  · exact string_yields
  · exact harray
  · exact htable
  · exact hconst (by simp [Json.WellFormed])
  · exact hconst (by simp [Json.WellFormed])
  · exact hconst (by simp [Json.WellFormed])
  · exact hconst (by simp [Json.WellFormed])
  · split_ifs
    · exact number_yields
    · exact integer_yields
    · exact float_yields
    · exact .fail

theorem valueUpTo_yields (n : Nat) : (valueUpTo limit n).Yields Json.WellFormed := by
  induction n with
  | zero => exact valueWith_yields (Yields.must .fail) (Yields.must .fail)
  | succ n ih => exact valueWith_yields (arrayOf_yields ih) (inlineTableOf_yields limit ih)

end Values

structure Document.WellFormed (d : Document) : Prop where
  closed : d.closed.WellFormed
  current : d.current.WellFormed

theorem wellFormed_withRoot {closed closed' : Nodes} (hclosed : closed.WellFormed)
    {f : Open → Except Clash Open} (hf : Keeps f) {path : List String}
    (h : withRoot closed path f = .ok closed') : closed'.WellFormed := by
  unfold withRoot at h
  cases hdescend : descend false f path ⟨false,false,closed⟩ with
  | error e => rw [hdescend] at h; cases h
  | ok t =>
    rw [hdescend] at h
    cases h
    exact hf.descend false path _ t hclosed hdescend

namespace Document

theorem WellFormed.keyValue {d d' : Document} (hd : d.WellFormed) {path : List String}
    {key : String} {v : Json} (hv : v.WellFormed) (h : d.keyValue path key v = .ok d') :
    d'.WellFormed := by
  obtain ⟨t,ht,hd'⟩ := exists_of_bind h
  cases hd'
  exact ⟨hd.closed,wellFormed_put hd.current hv ht⟩

theorem WellFormed.close {d d' : Document} (hd : d.WellFormed) (h : d.close = .ok d') :
    d'.WellFormed := by
  unfold Document.close at h
  split at h
  · cases h
    exact ⟨hd.current,Nodes.wellFormed_nil⟩
  · next key _ =>
    obtain ⟨closed,hclosed,hd'⟩ := exists_of_bind h
    cases hd'
    refine ⟨wellFormed_withRoot hd.closed (fun t t' ht h => ?_) hclosed,Nodes.wellFormed_nil⟩
    split_ifs at h
    · split at h
      · cases h
        exact ht.insert key (toJson_tables.mpr (List.forall_mem_singleton.mpr hd.current))
      · next rows hfind =>
        cases h
        exact ht.insert key
          (toJson_tables_append (toJson_tables.mp (ht.of_find? hfind)) hd.current)
      · cases h
    · cases h
      exact ht.insert key (toJson_table.mpr hd.current)

theorem wellFormed_lookup {es found : Nodes} (hes : es.WellFormed) {path : List String}
    {key : String} (h : openTable.lookup es path key = .ok found) : found.WellFormed := by
  induction path generalizing es with
  | nil =>
    unfold openTable.lookup at h
    split at h
    · cases h
      exact Nodes.wellFormed_nil
    · next hfind =>
      cases h
      exact hes.of_find? hfind
    · cases h
  | cons k path ih =>
    unfold openTable.lookup at h
    split at h
    · next hfind => exact ih (hes.of_find? hfind) h
    · next rows hfind =>
      have hrows := toJson_tables.mp (hes.of_find? hfind)
      refine ih ?_ h
      cases hlast : rows.getLast? with
      | none => exact Nodes.wellFormed_nil
      | some row => exact hrows row (List.mem_of_getLast? hlast)
    · cases h

theorem WellFormed.openTable {d d' : Document} (hd : d.WellFormed) {path : List String}
    (h : d.openTable path = .ok d') : d'.WellFormed := by
  obtain ⟨d₁,hd₁,h⟩ := exists_of_bind h
  have hclosed := hd.close hd₁
  split at h
  · cases h
    exact hclosed
  · next key _ =>
    obtain ⟨parent,hparent,h⟩ := exists_of_bind h
    obtain ⟨found,hfound,h⟩ := exists_of_bind h
    obtain ⟨rest,hrest,h⟩ := exists_of_bind h
    cases h
    have hroot := wellFormed_withRoot hclosed.closed (fun t t' ht h => by cases h; exact ht) hparent
    refine ⟨wellFormed_withRoot hroot (fun t t' ht h => ?_) hrest,wellFormed_lookup hroot hfound⟩
    cases h
    exact ht.erase key

theorem WellFormed.openRow {d d' : Document} (hd : d.WellFormed) {path : List String}
    (h : d.openRow path = .ok d') : d'.WellFormed := by
  obtain ⟨d₁,hd₁,h⟩ := exists_of_bind h
  have hclosed := hd.close hd₁
  split at h
  · cases h
    exact hclosed
  · obtain ⟨rest,hrest,h⟩ := exists_of_bind h
    cases h
    refine ⟨wellFormed_withRoot hclosed.closed (fun t t' ht h => ?_) hrest,Nodes.wellFormed_nil⟩
    split at h
    · cases h
      exact ht
    · cases h
      exact ht
    · cases h

end Document

def Sound (edit : Edit) : Prop := ∀ d d', d.WellFormed → edit d = .ok d' → d'.WellFormed

open Scan

variable (limit : Nat)

theorem keyValueLine_yields : (keyValueLine limit).Yields Sound := by
  refine .after fun path => ?_
  have hvalue : Yields (do
      let _ ← one '='
      let _ ← blanks
      let v ← value limit
      lineRest
      pure v) Json.WellFormed :=
    .after fun _ => .after fun _ => (valueUpTo_yields limit _).bind fun _ hv => .after fun _ => .pure hv
  exact hvalue.must.bind fun v hv => .pure fun d d' hd h => hd.keyValue hv h

theorem header_yields : (header limit).Yields Sound := by
  have hrow : (rowHeader limit).Yields Sound := .after fun _ => .after fun _ => .after fun _ =>
    .after fun _ => .pure fun d d' hd h => hd.openRow h
  have htable : (tableHeader limit).Yields Sound := .after fun _ => .after fun _ => .after fun _ =>
    .after fun _ => .pure fun d d' hd h => hd.openTable h
  intro c edit c' h
  unfold header at h
  split at h
  · exact hrow c edit c' h
  · split_ifs at h
    · exact hrow c edit c' h
    · exact htable c edit c' h
  · cases h

theorem edited_yields {d : Document} (hd : d.WellFormed) {s : Scan Edit} (h : s.Yields Sound) :
    (edited d s).Yields Document.WellFormed := by
  refine h.require fun edit d' hsound hedit => ?_
  cases hd' : edit d with
  | error e => rw [hd'] at hedit; cases hedit
  | ok d₁ =>
    rw [hd'] at hedit
    cases hedit
    exact hsound d d' hd hd'

theorem line_yields {d : Document} (hd : d.WellFormed) : (line limit d).Yields Document.WellFormed := by
  refine .after fun x => ?_
  split
  · exact Yields.must (.after fun _ => .after fun _ => .pure hd)
  · exact (edited_yields hd (header_yields limit)).must
  · exact .after fun _ => .pure hd
  · exact .after fun _ => .pure hd
  · exact (edited_yields hd (keyValueLine_yields limit)).must

theorem documentUpTo_yields (n : Nat) {d : Document} (hd : d.WellFormed) :
    (documentUpTo limit n d).Yields Document.WellFormed := by
  induction n generalizing d with
  | zero => exact .pure hd
  | succ n ih =>
    have hline : Yields (do let d ← line limit d; let _ ← blanks; pure d) Document.WellFormed :=
      (line_yields limit hd).bind fun _ hd' => .after fun _ => .pure hd'
    refine hline.maybe.bind fun o ho => ?_
    cases o with
    | none => exact .pure hd
    | some d' => exact ih (ho d' rfl)

theorem document_yields : (document limit).Yields Document.WellFormed := by
  have hstart : Document.start.WellFormed := ⟨Nodes.wellFormed_nil,Nodes.wellFormed_nil⟩
  have hlines : Yields (fun c => documentUpTo limit (c.rest.length + 1) .start c) Document.WellFormed :=
    fun c => documentUpTo_yields limit (c.rest.length + 1) hstart c
  exact .after fun _ => .after fun _ => hlines.bind fun _ hd => .after fun _ => .pure hd

theorem wellFormed_of_parse {text : List Char} {v : Json} (h : parse text = .ok v) :
    v.WellFormed := by
  unfold parse parseWithin at h
  cases hdocument : document depthLimit (.start text) with
  | miss o => rw [hdocument] at h; cases h
  | halt o => rw [hdocument] at h; cases h
  | done d c =>
    rw [hdocument] at h
    dsimp only at h
    cases hjson : d.toJson with
    | error e => rw [hjson] at h; cases h
    | ok w =>
      rw [hjson] at h
      cases h
      obtain ⟨d',hclose,hv⟩ := exists_of_bind hjson
      cases hv
      exact ((document_yields depthLimit _ d c hdocument).close hclose).closed

end Toml
end Workbench

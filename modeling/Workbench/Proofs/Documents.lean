import Workbench.Proofs.Entries
import Workbench.Proofs.OptionLines
set_option autoImplicit false

/-! Documents of options and sections, their text, and what is read from it. Each line of the text
takes the reader from one state to the next whatever follows; an option adds its entry to the table
that is open, and a header opens a new one. So the text of a document is read as the document. -/

namespace Workbench.Ini

abbrev Options := List (String × Value)

structure Document where
  root : Options
  sections : List (String × Options)
  deriving DecidableEq, Repr

def Options.entries (os : Options) : List (String × Json) := os.map fun o => (o.1, o.2.toJson)

def Options.lines (margin : Nat) (os : Options) : List (List Char) :=
  os.flatMap (optionLines margin)

def sectionLines (margin : Nat) (s : String × Options) : List (List Char) :=
  headerLine s.1 :: s.2.lines margin

namespace Document

def tables (ss : List (String × Options)) : List (String × Json) :=
  ss.map fun s => (s.1, Json.ofFields s.2.entries)

def toJson (d : Document) : Json := Json.ofFields (d.root.entries ++ tables d.sections)

def lines (margin : Nat) (d : Document) : List (List Char) :=
  d.root.lines margin ++ d.sections.flatMap (sectionLines margin)

def text (margin : Nat) (d : Document) : List Char := (d.lines margin).flatMap (· ++ ['\n'])

end Document

structure Options.Writable (os : Options) : Prop where
  nodup_keys : (os.map Prod.fst).Nodup
  keys : ∀ o ∈ os, IsKey o.1
  values : ∀ o ∈ os, o.2.Writable

structure Document.Writable (d : Document) : Prop where
  root : d.root.Writable
  sections : ∀ s ∈ d.sections, IsName s.1 ∧ s.2.Writable
  nodup_names : (d.sections.map Prod.fst).Nodup
  names_apart : ∀ s ∈ d.sections, s.1 ∉ d.root.map Prod.fst

instance (os : Options) : Decidable os.Writable :=
  decidable_of_iff ((os.map Prod.fst).Nodup ∧ (∀ o ∈ os, IsKey o.1) ∧ ∀ o ∈ os, o.2.Writable)
    ⟨fun ⟨hn,hk,hv⟩ => ⟨hn,hk,hv⟩,fun h => ⟨h.1,h.2,h.3⟩⟩

instance (d : Document) : Decidable d.Writable :=
  decidable_of_iff (d.root.Writable ∧ (∀ s ∈ d.sections, IsName s.1 ∧ s.2.Writable) ∧
      (d.sections.map Prod.fst).Nodup ∧ ∀ s ∈ d.sections, s.1 ∉ d.root.map Prod.fst)
    ⟨fun ⟨hr,hs,hn,ha⟩ => ⟨hr,hs,hn,ha⟩,fun h => ⟨h.1,h.2,h.3,h.4⟩⟩

/-- Reading these lines leads from one state to another, whatever follows them. -/
def Reads (s : State) (ls : List (List Char)) (t : State) : Prop :=
  ∀ number more, State.run true number s (ls ++ more) = State.run true (number + ls.length) t more

theorem Reads.nil (s : State) : Reads s [] s := fun _ _ => rfl

theorem Reads.cons {s t u : State} {l : List Char} {ls : List (List Char)}
    (h : s.step (classify true s.pending.isSome l) = .ok t) (hr : Reads t ls u) :
    Reads s (l :: ls) u := by
  intro number more
  have hstep : State.run true number s (l :: (ls ++ more)) =
      State.run true (number + 1) t (ls ++ more) := by rw [State.run, h]
  rw [List.cons_append, hstep, hr, List.length_cons, Nat.add_right_comm, Nat.add_assoc]

theorem Reads.append {s t u : State} {ls ms : List (List Char)} (h : Reads s ls t)
    (hr : Reads t ms u) : Reads s (ls ++ ms) u := by
  intro number more
  rw [List.append_assoc, h, hr, List.length_append, Nat.add_assoc]

/-- What the entries are once the open option is stored. -/
def State.settled (s : State) : Entries Json := s.close.root

theorem State.home_close (s : State) : s.close.home = s.home := by
  unfold close
  split <;> rfl

theorem State.pending_close (s : State) : s.close.pending = none := by
  unfold close
  split
  · next h => exact h
  · rfl

theorem join_extended {value l : List Char} (ls : List (List Char)) :
    Text.join ['\n'] ((value ++ '\n' :: l) :: ls) = Text.join ['\n'] (value :: l :: ls) := by
  cases ls with
  | nil => simp [Text.join]
  | cons m ls => simp [Text.join]

theorem reads_further (margin : Nat) (root : Entries Json) (home : Option String) (p : Pending)
    {ls : List (List Char)} (hls : ∀ l ∈ ls, IsFurther l) (hp : p.value = [] → ls = []) :
    Reads ⟨root,home,some p⟩ (ls.map (furtherLine margin))
      ⟨root,home,some { p with value := Text.join ['\n'] (p.value :: ls) }⟩ := by
  induction ls generalizing p with
  | nil => exact Reads.nil _
  | cons l ls ih =>
    have hl := hls l List.mem_cons_self
    have hvalue : p.value ≠ [] := fun he => List.cons_ne_nil _ _ (hp he)
    have hextend : p.extend l = { p with value := p.value ++ '\n' :: l } := by
      simp [Pending.extend, hl.ne_nil, hvalue]
    rw [← join_extended]
    refine Reads.cons (t := ⟨root,home,some (p.extend l)⟩) ?_ ?_
    · rw [Option.isSome_some, classify_furtherLine hl]
      rfl
    · rw [hextend]
      exact ih _ (fun m hm => hls m (List.mem_cons_of_mem _ hm)) (by simp)

theorem reads_option (margin : Nat) (s : State) {o : String × Value} (hk : IsKey o.1)
    (hv : o.2.Writable) :
    Reads s (optionLines margin o) ⟨s.settled,s.home,some ⟨s.home,o.1,o.2.spelled⟩⟩ := by
  refine Reads.cons (t := ⟨s.settled,s.home,some ⟨s.home,o.1,o.2.first⟩⟩) ?_ ?_
  · rw [classify_keyLine hk hv.isPiece_first]
    simp [State.step, State.settled, State.home_close]
  · exact reads_further margin _ _ ⟨s.home,o.1,o.2.first⟩ hv.isFurther hv.further_eq_nil

theorem store_root (root : Entries Json) (key : String) {v : Value} (hv : v.Writable) :
    store root ⟨none,key,v.spelled⟩ = root.insert key v.toJson := by
  simp only [store, typed_spelled hv]

theorem store_section (root table : Entries Json) (name key : String) {v : Value}
    (hv : v.Writable) :
    store (root.insert name (.object table)) ⟨some name,key,v.spelled⟩ =
      root.insert name (.object (table.insert key v.toJson)) := by
  simp only [store, typed_spelled hv, Entries.find?_insert_self, Entries.insert_insert]

theorem reads_root (margin : Nat) {os : Options} (hos : ∀ o ∈ os, IsKey o.1 ∧ o.2.Writable)
    (s : State) (hs : s.home = none) :
    ∃ t, Reads s (os.lines margin) t ∧ t.settled = s.settled.overlay os.entries := by
  induction os generalizing s with
  | nil => exact ⟨s,Reads.nil s,rfl⟩
  | cons o os ih =>
    obtain ⟨hk,hv⟩ := hos o List.mem_cons_self
    have hread := reads_option margin s hk hv
    rw [hs] at hread
    obtain ⟨t,hreads,hsettled⟩ := ih (fun p hp => hos p (List.mem_cons_of_mem _ hp))
      ⟨s.settled,none,some ⟨none,o.1,o.2.spelled⟩⟩ rfl
    refine ⟨t,hread.append hreads,hsettled.trans ?_⟩
    have hstored : State.settled ⟨s.settled,none,some ⟨none,o.1,o.2.spelled⟩⟩ =
        s.settled.insert o.1 o.2.toJson := store_root _ _ hv
    rw [hstored]
    rfl

theorem reads_table (margin : Nat) {os : Options} (hos : ∀ o ∈ os, IsKey o.1 ∧ o.2.Writable)
    (s : State) {name : String} (hs : s.home = some name) {root table : Entries Json}
    (ht : s.settled = root.insert name (.object table)) :
    ∃ t, Reads s (os.lines margin) t ∧
      t.settled = root.insert name (.object (table.overlay os.entries)) := by
  induction os generalizing s table with
  | nil => exact ⟨s,Reads.nil s,ht⟩
  | cons o os ih =>
    obtain ⟨hk,hv⟩ := hos o List.mem_cons_self
    have hread := reads_option margin s hk hv
    rw [hs, ht] at hread
    obtain ⟨t,hreads,hsettled⟩ := ih (fun p hp => hos p (List.mem_cons_of_mem _ hp))
      ⟨root.insert name (.object table),some name,some ⟨some name,o.1,o.2.spelled⟩⟩ rfl
      (store_section root table name o.1 hv)
    exact ⟨t,hread.append hreads,hsettled⟩

theorem reads_section (margin : Nat) (s : State) {name : String} {os : Options} (hn : IsName name)
    (hos : os.Writable) (hfree : s.settled.find? name = none) :
    ∃ t, Reads s (sectionLines margin (name,os)) t ∧
      t.settled = s.settled.insert name (Json.ofFields os.entries) := by
  have hopen : openSection s.settled name = s.settled.insert name .emptyObject := by
    simp [openSection, Entries.contains, hfree]
  have hheader : s.step (classify true s.pending.isSome (headerLine name)) =
      .ok ⟨s.settled.insert name .emptyObject,some name,none⟩ := by
    have hclosed : s.close.pending = none := State.pending_close s
    rw [classify_headerLine hn, ← hopen, ← hclosed]
    rfl
  have hempty : s.settled.insert name .emptyObject = s.settled.insert name (.object []) := rfl
  obtain ⟨t,hreads,hsettled⟩ := reads_table margin
    (fun o ho => ⟨hos.keys o ho,hos.values o ho⟩)
    ⟨s.settled.insert name .emptyObject,some name,none⟩ rfl hempty
  exact ⟨t,Reads.cons hheader hreads,hsettled⟩

theorem reads_sections (margin : Nat) {ss : List (String × Options)}
    (hss : ∀ s ∈ ss, IsName s.1 ∧ s.2.Writable) (hnodup : (ss.map Prod.fst).Nodup) (s : State)
    (hfree : ∀ x ∈ ss, s.settled.find? x.1 = none) :
    ∃ t, Reads s (ss.flatMap (sectionLines margin)) t ∧
      t.settled = s.settled.overlay (Document.tables ss) := by
  induction ss generalizing s with
  | nil => exact ⟨s,Reads.nil s,rfl⟩
  | cons x ss ih =>
    obtain ⟨hx,hnodup⟩ := List.nodup_cons.mp hnodup
    obtain ⟨hn,hos⟩ := hss x List.mem_cons_self
    obtain ⟨t,hread,hsettled⟩ := reads_section margin s hn hos (hfree x List.mem_cons_self)
    -- the next sections have other names, so that they are still to come
    have hlater : ∀ y ∈ ss, t.settled.find? y.1 = none := by
      intro y hy
      have hne : y.1 ≠ x.1 := by
        intro he
        exact hx (he ▸ List.mem_map_of_mem hy)
      rw [hsettled, Entries.find?_insert_other hne]
      exact hfree y (List.mem_cons_of_mem _ hy)
    obtain ⟨u,hreads,hlast⟩ := ih (fun y hy => hss y (List.mem_cons_of_mem _ hy)) hnodup t hlater
    refine ⟨u,hread.append hreads,hlast.trans ?_⟩
    rw [hsettled]
    rfl

theorem isLine_lines {d : Document} (h : d.Writable) (margin : Nat) :
    ∀ l ∈ d.lines margin, IsLine l := by
  have hoptions : ∀ os : Options, os.Writable → ∀ l ∈ os.lines margin, IsLine l := by
    intro os hos l hl
    obtain ⟨o,ho,hl⟩ := List.mem_flatMap.mp hl
    exact isLine_optionLines (hos.keys o ho) (hos.values o ho) margin l hl
  intro l hl
  rcases List.mem_append.mp hl with hl | hl
  · exact hoptions d.root h.root l hl
  · obtain ⟨s,hs,hl⟩ := List.mem_flatMap.mp hl
    obtain ⟨hn,hos⟩ := h.sections s hs
    rcases List.mem_cons.mp hl with rfl | hl
    · exact isLine_headerLine hn
    · exact hoptions s.2 hos l hl

/-- The text of a document is read as the document. -/
theorem parse_text {d : Document} (h : d.Writable) (margin : Nat) :
    parse (d.text margin) = .ok d.toJson := by
  obtain ⟨s,hroot,hrooted⟩ := reads_root margin
    (fun o ho => ⟨h.root.keys o ho,h.root.values o ho⟩) State.start rfl
  have hfree : ∀ x ∈ d.sections, s.settled.find? x.1 = none := by
    intro x hx
    have hnot : x.1 ∉ Entries.keys d.root.entries := by
      simpa [Entries.keys, Options.entries] using h.names_apart x hx
    rw [hrooted, Entries.find?_overlay_of_not_mem _ _ hnot]
    rfl
  obtain ⟨t,hsections,hsettled⟩ := reads_sections margin h.sections h.nodup_names s hfree
  have hread : State.run true 1 .start (d.lines margin) = .ok t.close := by
    have hall := hroot.append hsections 1 []
    rw [List.append_nil] at hall
    exact hall
  have hentries : t.close.root = Entries.ofList (d.root.entries ++ Document.tables d.sections) := by
    have hstart : State.start.settled = [] := rfl
    rw [← State.settled, hsettled, hrooted, hstart, Entries.ofList, List.foldl_append]
    rfl
  rw [parse, parseWith, Document.text, lines_closed (isLine_lines h margin), hread]
  exact congrArg (fun es => Except.ok (Json.object es)) hentries

def sampleDocument : Document :=
  ⟨[("line width",.whole (-7)), ("note",.text ["#1; not cut".toList])],
    [("tool:flake8",[("exclude",.text ["a b".toList,"= c".toList]), ("strict",.truth true),
      ("rest",.text [])]), ("empty",[])]⟩

theorem parse_sampleDocument :
    sampleDocument.Writable ∧ parse (sampleDocument.text 3) = .ok sampleDocument.toJson := by
  have hwritable : sampleDocument.Writable := by decide
  exact ⟨hwritable,parse_text hwritable 3⟩

end Workbench.Ini

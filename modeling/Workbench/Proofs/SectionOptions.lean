import Workbench.Proofs.Documents
set_option autoImplicit false

/-! What becomes of the options of a text. Where a line stands, whether it gives an option and under
which key can be told from the lines above it alone. An option in front of all headers is a key of
the whole. An option below a header is a key of the table under the header's name, unless that name
is the key of an option in front of all headers: then its value stands there, and the options of
the section are lost. -/

namespace Workbench.Ini

/-- Where a line stands: the section of the last header above it, and whether the option above it
may go on. -/
structure Place where
  home : Option String
  isOpen : Bool
  deriving DecidableEq, Repr

structure Occurrence where
  home : Option String
  key : String
  deriving DecidableEq, Repr

def sectionName (header : List Char) : String :=
  String.ofList (Text.lower (Text.trim header.tail.dropLast))

def optionKey (line : List Char) : String :=
  String.ofList (Text.lower (Text.trim (Text.cutAt isSeparator line).1))

namespace Place

def start : Place := ⟨none,false⟩

/-- A comment, or an indented line below an option that may go on. -/
def passes (p : Place) (raw : List Char) (first : Char) : Bool :=
  isMark first || (isIndented raw && p.isOpen)

def below (p : Place) (raw : List Char) : Place :=
  match Text.trim raw with
  | [] => ⟨p.home,false⟩
  | c :: t =>
    if p.passes raw c then p
    else if c == '[' then ⟨some (sectionName (c :: t)),false⟩
    else ⟨p.home,true⟩

def option? (p : Place) (raw : List Char) : Option Occurrence :=
  match Text.trim raw with
  | [] => none
  | c :: t =>
    if p.passes raw c then none
    else if c == '[' then none
    else some ⟨p.home,optionKey (c :: t)⟩

end Place

def occurrencesFrom (p : Place) : List (List Char) → List Occurrence
  | [] => []
  | raw :: more => (p.option? raw).toList ++ occurrencesFrom (p.below raw) more

def occurrences (text : List Char) : List Occurrence := occurrencesFrom .start (Text.lines text)

/-- What a line of each kind says about the next place and about the options. -/
def Place.Agrees (p : Place) (raw : List Char) : Line → Prop
  | .blank => p.below raw = ⟨p.home,false⟩ ∧ p.option? raw = none
  | .comment | .continuation _ => p.below raw = p ∧ p.option? raw = none
  | .header name => p.below raw = ⟨some name,false⟩ ∧ p.option? raw = none
  | .option key _ => p.below raw = ⟨p.home,true⟩ ∧ p.option? raw = some ⟨p.home,key⟩
  | .bad _ => True

section Agrees

variable {p : Place} {raw t : List Char} {c : Char} (htrim : Text.trim raw = c :: t)
include htrim

theorem agrees_of_passes (hpass : p.passes raw c) {l : Line}
    (hl : l = .comment ∨ ∃ piece, l = .continuation piece) : p.Agrees raw l := by
  obtain rfl | ⟨piece,rfl⟩ := hl <;> simp [Place.Agrees, Place.below, Place.option?, htrim, hpass]

theorem agrees_headerOf (hpass : p.passes raw c = false) (hc : c = '[') :
    p.Agrees raw (headerOf (c :: t)) := by
  subst hc
  simp only [headerOf, List.tail_cons]
  cases hinner : Text.stripEnd? [']'] t with
  | none => trivial
  | some inner =>
    have ht : t = inner ++ [']'] := Text.eq_append_of_stripEnd? hinner
    dsimp only
    split_ifs
    · trivial
    · simp [Place.Agrees, Place.below, Place.option?, htrim, hpass, sectionName, ht]

theorem agrees_optionOf (hpass : p.passes raw c = false) (hc : c ≠ '[') :
    p.Agrees raw (optionOf (c :: t)) := by
  have hplace : p.below raw = ⟨p.home,true⟩ ∧ p.option? raw = some ⟨p.home,optionKey (c :: t)⟩ := by
    simp [Place.below, Place.option?, htrim, hpass, hc]
  unfold optionOf
  unfold optionKey at hplace
  cases hcut : Text.cutAt isSeparator (c :: t) with
  | mk before after =>
    rw [hcut] at hplace
    cases after with
    | none => trivial
    | some after =>
      dsimp only
      split_ifs
      · trivial
      · exact hplace

end Agrees

theorem agrees_classify (p : Place) (raw : List Char) :
    p.Agrees raw (classify true p.isOpen raw) := by
  cases htrim : Text.trim raw with
  | nil => simp [classify, htrim, Place.Agrees, Place.below, Place.option?]
  | cons c t =>
    simp only [classify, htrim, if_true]
    split_ifs with hmark hgoes hbracket
    · exact agrees_of_passes htrim (by simp [Place.passes, hmark]) (Or.inl rfl)
    · exact agrees_of_passes htrim (by simp [Place.passes, hgoes]) (Or.inr ⟨_,rfl⟩)
    · exact agrees_headerOf htrim (by simp [Place.passes, hmark, hgoes]) (by simpa using hbracket)
    · exact agrees_optionOf htrim (by simp [Place.passes, hmark, hgoes]) (by simpa using hbracket)

theorem isObject_typed (value : List Char) : (typed value).isObject = false := by
  unfold typed
  split_ifs
  · rfl
  · cases readInt? value with
    | some n => rfl
    | none =>
      dsimp only
      split_ifs <;> rfl

/-- The entries, in a section or in front of all of them, after some options are stored. -/
structure Keeps (root : Entries Json) (home : Option String) (stored : List Occurrence) : Prop where
  top : ∀ key, ⟨none,key⟩ ∈ stored ↔ ∃ v, root.find? key = some v ∧ v.isObject = false
  within : ∀ s key, ⟨some s,key⟩ ∈ stored → ⟨none,s⟩ ∉ stored →
    ∃ table, root.find? s = some (.object table) ∧ Entries.contains key table
  entered : ∀ s, home = some s → ∃ v, root.find? s = some v
  outside : home = none → ∀ o ∈ stored, o.home = none

theorem keeps_start : Keeps [] none [] where
  top key := by simp [Entries.find?]
  within s key h := absurd h List.not_mem_nil
  entered s h := by cases h
  outside _ o h := absurd h List.not_mem_nil

section Keeps

variable {root : Entries Json} {stored : List Occurrence}

theorem Keeps.store_top (h : Keeps root none stored) (key : String) (value : List Char) :
    Keeps (store root ⟨none,key,value⟩) none (stored ++ [⟨none,key⟩]) where
  top k := by
    have hnot := isObject_typed value
    by_cases hk : k = key
    · subst hk
      simp [store, hnot]
    · simp [store, Entries.find?_insert_other hk, hk, h.top k]
  within s k hk _ := by
    have hk : (⟨some s,k⟩ : Occurrence) ∈ stored := by simpa using hk
    exact absurd (h.outside rfl _ hk) (by simp)
  entered s hs := by cases hs
  outside _ o ho := by
    rcases List.mem_append.mp ho with ho | ho
    · exact h.outside rfl o ho
    · exact (List.mem_singleton.mp ho) ▸ rfl

theorem Keeps.store_shadowed {s : String} (h : Keeps root (some s) stored) {v : Json}
    (hv : root.find? s = some v) (hobject : v.isObject = false) (key : String)
    (value : List Char) :
    Keeps (store root ⟨some s,key,value⟩) (some s) (stored ++ [⟨some s,key⟩]) := by
  have hstore : store root ⟨some s,key,value⟩ = root := by
    unfold store
    cases v with
    | object fs => cases hobject
    | _ => simp only [hv]
  have hshadow : (⟨none,s⟩ : Occurrence) ∈ stored := (h.top s).mpr ⟨v,hv,hobject⟩
  rw [hstore]
  refine ⟨fun k => ?_,fun s' k hk hnot => ?_,h.entered,fun hs => absurd hs (by simp)⟩
  · simpa using h.top k
  · have hfree : (⟨none,s'⟩ : Occurrence) ∉ stored := by simpa using hnot
    rcases List.mem_append.mp hk with hk | hk
    · exact h.within s' k hk hfree
    · cases List.mem_singleton.mp hk
      exact absurd hshadow hfree

/-- The section has its table, and the option goes into it. -/
theorem Keeps.store_table {s : String} (h : Keeps root (some s) stored) {table : Entries Json}
    (hv : root.find? s = some (.object table)) (key : String) (value : List Char) :
    Keeps (store root ⟨some s,key,value⟩) (some s) (stored ++ [⟨some s,key⟩]) := by
  have hstore : store root ⟨some s,key,value⟩ =
      root.insert s (.object (Entries.insert key (typed value) table)) := by
    simp [store, hv]
  rw [hstore]
  refine ⟨fun k => ?_,fun s' k hk hnot => ?_,fun s' hs' => ?_,fun hs => absurd hs (by simp)⟩
  · have hfront : (⟨none,k⟩ : Occurrence) ∈ stored ++ [⟨some s,key⟩] ↔ ⟨none,k⟩ ∈ stored := by simp
    rw [hfront, h.top, Entries.find?_insert]
    by_cases hks : k = s
    · subst hks
      simp [hv, Json.isObject]
    · simp [hks]
  · have hfree : (⟨none,s'⟩ : Occurrence) ∉ stored := by simpa using hnot
    rw [Entries.find?_insert]
    by_cases hs' : s' = s
    · subst hs'
      refine ⟨_,if_pos rfl,?_⟩
      rw [Entries.contains, Entries.find?_insert]
      split_ifs with hkey
      · rfl
      · have hk : (⟨some s',k⟩ : Occurrence) ∈ stored := by simpa [hkey] using hk
        obtain ⟨table',htable,hcontains⟩ := h.within s' k hk hfree
        cases hv.symm.trans htable
        exact hcontains
    · have hk : (⟨some s',k⟩ : Occurrence) ∈ stored := by simpa [hs'] using hk
      rw [if_neg hs']
      exact h.within s' k hk hfree
  · cases hs'
    exact ⟨_,Entries.find?_insert_self s _ root⟩

theorem Keeps.openSection {home : Option String} (h : Keeps root home stored) (name : String) :
    Keeps (openSection root name) (some name) stored := by
  have houtside : some name = none → ∀ o ∈ stored, o.home = none := fun hs => absurd hs (by simp)
  unfold Ini.openSection
  split_ifs with hcontains
  · refine ⟨h.top,h.within,fun s hs => ?_,houtside⟩
    cases hs
    exact Option.isSome_iff_exists.mp hcontains
  · have hnew : root.find? name = none := by simpa [Entries.contains] using hcontains
    refine ⟨fun key => ?_,fun s key hkey hnot => ?_,fun s hs => ?_,houtside⟩
    · rw [h.top, Entries.find?_insert]
      by_cases hk : key = name
      · subst hk
        simp [hnew, Json.emptyObject, Json.isObject]
      · simp [hk]
    · obtain ⟨table,htable,hkept⟩ := h.within s key hkey hnot
      have hne : s ≠ name := by
        rintro rfl
        cases hnew.symm.trans htable
      exact ⟨table,by rw [Entries.find?_insert_other hne, htable],hkept⟩
    · cases hs
      exact ⟨_,Entries.find?_insert_self name _ root⟩

theorem Keeps.store {p : Pending} (h : Keeps root p.home stored) :
    Keeps (store root p) p.home (stored ++ [⟨p.home,p.key⟩]) := by
  obtain ⟨home,key,value⟩ := p
  cases home with
  | none => exact h.store_top key value
  | some s =>
    obtain ⟨v,hv⟩ := h.entered s rfl
    cases v with
    | object table => exact h.store_table hv key value
    | _ => exact h.store_shadowed hv rfl key value

end Keeps

/-- The reader stands at a place, and has stored all options above it but the open one. -/
structure State.At (s : State) (p : Place) (seen : List Occurrence) : Prop where
  place : p = ⟨s.home,s.pending.isSome⟩
  pending : ∀ q ∈ s.pending, q.home = s.home
  keeps : ∃ stored, Keeps s.root s.home stored ∧
    seen = stored ++ (s.pending.map fun q => ⟨q.home,q.key⟩).toList

namespace State

variable {s : State} {p : Place} {seen : List Occurrence}

theorem at_start : At .start .start [] := ⟨rfl,by simp [start],[],keeps_start,rfl⟩

theorem At.keeps_close (h : s.At p seen) : Keeps s.close.root s.close.home seen := by
  obtain ⟨stored,hkeeps,hseen⟩ := h.keeps
  obtain ⟨root,home,pending⟩ := s
  cases pending with
  | none => simpa [close, hseen] using hkeeps
  | some q =>
    have hhome : q.home = home := h.pending q rfl
    subst hhome
    simpa [close, hseen] using hkeeps.store

theorem At.close (h : s.At p seen) : s.close.At ⟨p.home,false⟩ seen where
  place := by rw [h.place, home_close, pending_close]; rfl
  pending := by simp [pending_close]
  keeps := ⟨seen,h.keeps_close,by simp [pending_close]⟩

theorem At.extend (h : s.At p seen) (piece : List Char) :
    State.At { s with pending := s.pending.map (·.extend piece) } p seen := by
  have hkey : ∀ q : Pending, (⟨(q.extend piece).home,(q.extend piece).key⟩ : Occurrence) =
      ⟨q.home,q.key⟩ := by
    intro q
    unfold Pending.extend
    split_ifs <;> rfl
  obtain ⟨stored,hkeeps,hseen⟩ := h.keeps
  refine ⟨by simp [h.place],fun q hq => ?_,stored,hkeeps,?_⟩
  · obtain ⟨r,hr,rfl⟩ := Option.map_eq_some_iff.mp hq
    exact (congrArg Occurrence.home (hkey r)).trans (h.pending r hr)
  · simp [hseen, hkey, Function.comp_def]

theorem At.step (h : s.At p seen) {t : State} {raw : List Char}
    (hstep : s.step (classify true s.pending.isSome raw) = .ok t) :
    t.At (p.below raw) (seen ++ (p.option? raw).toList) := by
  have hopen : s.pending.isSome = p.isOpen := by rw [h.place]
  have hagrees := agrees_classify p raw
  rw [hopen] at hstep
  cases hl : classify true p.isOpen raw with
  | blank =>
    rw [hl] at hstep hagrees
    cases hstep
    rw [hagrees.1, hagrees.2]
    simpa using h.close
  | comment =>
    rw [hl] at hstep hagrees
    cases hstep
    rw [hagrees.1, hagrees.2]
    simpa using h
  | continuation piece =>
    rw [hl] at hstep hagrees
    cases hstep
    rw [hagrees.1, hagrees.2, Option.toList_none, List.append_nil]
    exact h.extend piece
  | header name =>
    rw [hl] at hstep hagrees
    cases hstep
    rw [hagrees.1, hagrees.2, Option.toList_none, List.append_nil]
    refine ⟨by simp [pending_close],by simp [pending_close],seen,?_,by simp [pending_close]⟩
    exact h.keeps_close.openSection name
  | option key value =>
    rw [hl] at hstep hagrees
    cases hstep
    rw [hagrees.1, hagrees.2]
    have hhome : p.home = s.close.home := by rw [h.place, home_close]
    refine ⟨by simp [hhome],by simp,seen,h.keeps_close,by simp [hhome]⟩
  | bad cause => rw [hl] at hstep; cases hstep

theorem At.run (h : s.At p seen) {number : Nat} {ls : List (List Char)} {t : State}
    (hrun : run true number s ls = .ok t) :
    Keeps t.root t.home (seen ++ occurrencesFrom p ls) := by
  induction ls generalizing number s p seen with
  | nil =>
    cases hrun
    simpa [occurrencesFrom] using h.keeps_close
  | cons raw more ih =>
    rw [State.run] at hrun
    cases hstep : s.step (classify true s.pending.isSome raw) with
    | error cause =>
      rw [hstep] at hrun
      cases hrun
    | ok u =>
      rw [hstep] at hrun
      rw [occurrencesFrom, ← List.append_assoc]
      exact ih (h.step hstep) hrun

end State

/-- In an accepted text no option in front of all sections is lost. The options of a section are in
the section's table, unless an option in front of all sections has the section's name for its key:
exactly then they are lost. -/
theorem options_kept_unless_shadowed {text : List Char} {v : Json} (h : parse text = .ok v) :
    ∃ root, v = .object root ∧
      (∀ key, ⟨none,key⟩ ∈ occurrences text → Entries.contains key root) ∧
      ∀ s key, ⟨some s,key⟩ ∈ occurrences text →
        ((∃ table, Entries.find? s root = some (.object table) ∧ Entries.contains key table) ↔
          ⟨none,s⟩ ∉ occurrences text) := by
  rw [parse, parseWith] at h
  cases hrun : State.run true 1 .start (Text.lines text) with
  | error e =>
    rw [hrun] at h
    cases h
  | ok t =>
    rw [hrun] at h
    cases h
    have hkeeps : Keeps t.root t.home (occurrences text) := by
      simpa [occurrences] using State.at_start.run hrun
    refine ⟨t.root,rfl,fun key hkey => ?_,fun s key hkey => ⟨?_,hkeeps.within s key hkey⟩⟩
    · obtain ⟨v,hv,_⟩ := (hkeeps.top key).mp hkey
      simp [Entries.contains, hv]
    · rintro ⟨table,htable,_⟩ hshadow
      obtain ⟨v,hv,hobject⟩ := (hkeeps.top s).mp hshadow
      cases htable.symm.trans hv
      cases hobject

def twoParts : List Char := "Top = 1\n[A]\nx: 1\n  y = 2\n[b]\n[a]\nZ = 3\n".toList

def twoPartsRead : Json :=
  .object
    [("a",.object [("x",.string "1\ny = 2"), ("z",Json.ofInt 3)]), ("b",.object []),
      ("top",Json.ofInt 1)]

theorem options_kept_unless_shadowed_twoParts :
    parse twoParts = .ok twoPartsRead ∧ ⟨none,"top"⟩ ∈ occurrences twoParts ∧
    ⟨some "a","x"⟩ ∈ occurrences twoParts ∧ ⟨none,"a"⟩ ∉ occurrences twoParts ∧
    ∃ root table, twoPartsRead = .object root ∧ Entries.contains "top" root ∧
      Entries.find? "a" root = some (.object table) ∧ Entries.contains "x" table := by
  have hparse : parse twoParts = .ok twoPartsRead := rfl
  have hall : occurrences twoParts = [⟨none,"top"⟩,⟨some "a","x"⟩,⟨some "a","z"⟩] := rfl
  have htop : ⟨none,"top"⟩ ∈ occurrences twoParts := by simp [hall]
  have hx : ⟨some "a","x"⟩ ∈ occurrences twoParts := by simp [hall]
  have hfree : ⟨none,"a"⟩ ∉ occurrences twoParts := by simp [hall]
  obtain ⟨root,hroot,hfront,hsections⟩ := options_kept_unless_shadowed hparse
  obtain ⟨table,htable,hkey⟩ := (hsections "a" "x" hx).mpr hfree
  exact ⟨hparse,htop,hx,hfree,root,table,hroot,hfront "top" htop,htable,hkey⟩

def shadowedSection : List Char := "a = 1\n[a]\nb = 2\n".toList

/-- The section comes to nothing, and its option is lost. -/
theorem shadowedSection_lost :
    ¬ ∀ (text : List Char) (v : Json), parse text = .ok v → ∃ root, v = .object root ∧
      (∀ key, ⟨none,key⟩ ∈ occurrences text → Entries.contains key root) ∧
      ∀ s key, ⟨some s,key⟩ ∈ occurrences text →
        ∃ table, Entries.find? s root = some (.object table) ∧ Entries.contains key table := by
  intro hkeeps
  have hparse : parse shadowedSection = .ok (.object [("a",Json.ofInt 1)]) := rfl
  have hall : occurrences shadowedSection = [⟨none,"a"⟩,⟨some "a","b"⟩] := rfl
  have hb : ⟨some "a","b"⟩ ∈ occurrences shadowedSection := by simp [hall]
  obtain ⟨root,hroot,_,hsections⟩ := hkeeps shadowedSection _ hparse
  cases hroot
  obtain ⟨table,htable,_⟩ := hsections "a" "b" hb
  cases htable

end Workbench.Ini

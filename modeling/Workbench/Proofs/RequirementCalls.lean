import Workbench.Extract
import Workbench.Proofs.Entries
import Workbench.Proofs.Trimming
set_option autoImplicit false

/-! Requirements that a setup script lists as literals. The list is taken to end at its first
closing bracket, even at one inside a literal. So all requirements are seen, in order and trimmed,
just when none has such a bracket; else those in front of the first one that has, and that one and
all behind it are lost. -/

namespace Workbench.SetupScript

def keyword : List Char := "install_requires".toList

/-- What may stand between literals: a comma, blanks, all but quotes and closing brackets. -/
def IsFiller (s : List Char) : Prop := ∀ c ∈ s, isQuote c = false ∧ c ≠ ']'

/-- A requirement in quotes, behind what parts it from the one before. -/
structure Item where
  gap : List Char
  quote : Char
  text : List Char
  deriving DecidableEq, Repr

namespace Item

def chars (i : Item) : List Char := i.gap ++ i.quote :: (i.text ++ [i.quote])

def requirement (i : Item) : String := String.ofList (Text.trim i.text)

structure Written (i : Item) : Prop where
  gap : IsFiller i.gap
  quote : isQuote i.quote
  text : ∀ c ∈ i.text, isQuote c = false
  solid : i.text ≠ []

/-- The literal has no bracket in it that closes the list. -/
def isOpen (i : Item) : Bool := !i.text.contains ']'

end Item

/-- A script with a list of requirements in it: what stands in front of the keyword, the blanks in
front of the equals sign and behind it, the items, what stands behind the last of them, and what
follows the list. -/
structure Call where
  front : List Char
  before : List Char
  after : List Char
  items : List Item
  last : List Char
  rest : List Char
  deriving DecidableEq, Repr

namespace Call

def list (c : Call) : List Char := c.items.flatMap Item.chars ++ (c.last ++ ']' :: c.rest)

def text (c : Call) : List Char :=
  c.front ++ (keyword ++ (c.before ++ '=' :: (c.after ++ '[' :: c.list)))

/-- The keyword stands there for the first time, and is no end of a longer word. -/
structure Written (c : Call) : Prop where
  fresh : ¬ keyword <:+: c.front
  apart : ∀ d ∈ c.front.getLast?, Text.isWord d = false
  before : ∀ d ∈ c.before, isSpace d
  after : ∀ d ∈ c.after, isSpace d
  items : ∀ i ∈ c.items, i.Written
  last : IsFiller c.last

end Call

theorem not_prefix_of_fresh {word front : List Char} (hword : ∀ c ∈ word, Text.isWord c)
    (hfresh : ¬ word <:+: front) (hapart : ∀ c ∈ front.getLast?, Text.isWord c = false)
    (hne : front ≠ []) (s : List Char) : ¬ word <+: front ++ s := by
  intro hprefix
  rcases List.prefix_or_prefix_of_prefix hprefix (List.prefix_append front s) with h | h
  · exact hfresh h.isInfix
  · obtain ⟨u,c,rfl⟩ := (List.eq_nil_or_concat' front).resolve_left hne
    have hc := hapart c (by simp)
    rw [hword c (h.subset (by simp))] at hc
    cases hc

theorem afterAssign?_eq_none {word s : List Char} (h : ¬ word <+: s) :
    afterAssign? word s = none := by
  rw [afterAssign?, Text.stripStart?_eq_none_iff.mpr h]

theorem afterAssign?_append (word : List Char) {before after : List Char}
    (hbefore : ∀ c ∈ before, isSpace c) (hafter : ∀ c ∈ after, isSpace c) {d : Char}
    (hd : isSpace d = false) (s : List Char) :
    afterAssign? word (word ++ (before ++ '=' :: (after ++ d :: s))) = some (d :: s) := by
  have hequals : isSpace '=' = false := by decide
  rw [afterAssign?, Text.stripStart?_append]
  simp only [List.dropWhile_append_of_pos hbefore, List.dropWhile_append_of_pos hafter,
    List.dropWhile_cons_of_neg (by simpa using hequals),
    List.dropWhile_cons_of_neg (by simpa using hd)]

section FirstValue

variable {α : Type} {word : List Char} {wanted : List Char → Option α}

theorem firstValue_append {front : List Char} (hword : ∀ c ∈ word, Text.isWord c)
    (hfresh : ¬ word <:+: front) (hapart : ∀ c ∈ front.getLast?, Text.isWord c = false)
    (s : List Char) :
    firstValue word wanted false (front ++ s) = firstValue word wanted false s := by
  suffices h : ∀ inWord, (front = [] → inWord = false) →
      firstValue word wanted inWord (front ++ s) = firstValue word wanted false s from
    h false fun _ => rfl
  induction front with
  | nil => exact fun inWord hin => by rw [hin rfl, List.nil_append]
  | cons c front ih =>
    intro inWord _
    have hnone := afterAssign?_eq_none
      (not_prefix_of_fresh hword hfresh hapart (List.cons_ne_nil c front) s)
    have hfresh' : ¬ word <:+: front := fun h => hfresh (h.trans (List.suffix_cons c front).isInfix)
    have hapart' : ∀ d ∈ front.getLast?, Text.isWord d = false := fun d hd =>
      hapart d (by rw [List.getLast?_cons, Option.mem_def.mp hd]; rfl)
    rw [List.cons_append] at hnone ⊢
    have hstep : firstValue word wanted inWord (c :: (front ++ s)) =
        firstValue word wanted (Text.isWord c) (front ++ s) := by
      cases inWord <;> simp [firstValue, hnone]
    rw [hstep]
    refine ih hfresh' hapart' (Text.isWord c) fun hnil => hapart c ?_
    rw [hnil]
    rfl

theorem firstValue_here {s : List Char} {v : α} (h : (afterAssign? word s).bind wanted = some v)
    (hne : s ≠ []) : firstValue word wanted false s = some v := by
  obtain ⟨c,t,rfl⟩ := List.exists_cons_of_ne_nil hne
  simp [firstValue, h]

end FirstValue

theorem literals_filler {gap : List Char} (h : ∀ c ∈ gap, isQuote c = false) (s : List Char) :
    literals none (gap ++ s) = literals none s := by
  induction gap with
  | nil => rfl
  | cons c gap ih =>
    have hc := h c List.mem_cons_self
    rw [List.cons_append, literals, if_neg (by simpa using hc)]
    exact ih fun d hd => h d (List.mem_cons_of_mem _ hd)

theorem literals_text {text : List Char} (h : ∀ c ∈ text, isQuote c = false) (read s : List Char) :
    literals (some read) (text ++ s) = literals (some (text.reverse ++ read)) s := by
  induction text generalizing read with
  | nil => rfl
  | cons c text ih =>
    have hc := h c List.mem_cons_self
    rw [List.cons_append, literals, if_neg (by simpa using hc),
      ih fun d hd => h d (List.mem_cons_of_mem _ hd)]
    simp

theorem literals_quote {quote : Char} (h : isQuote quote) (s : List Char) :
    literals none (quote :: s) = literals (some []) s := by
  rw [literals, if_pos h]

theorem literals_item {i : Item} (hi : i.Written) (s : List Char) :
    literals none (i.chars ++ s) = i.text :: literals none s := by
  have hgap : ∀ c ∈ i.gap, isQuote c = false := fun c hc => (hi.gap c hc).1
  have hread : (i.text.reverse ++ []).isEmpty = false := by simpa using hi.solid
  rw [Item.chars, List.append_assoc, literals_filler hgap, List.cons_append,
    literals_quote hi.quote, List.append_assoc, literals_text hi.text, List.singleton_append,
    literals, if_pos hi.quote, hread]
  simp

theorem literals_unclosed {i : Item} (hi : i.Written) {text : List Char}
    (h : ∀ c ∈ text, isQuote c = false) : literals none (i.gap ++ i.quote :: text) = [] := by
  have hgap : ∀ c ∈ i.gap, isQuote c = false := fun c hc => (hi.gap c hc).1
  rw [literals_filler hgap, literals_quote hi.quote, ← List.append_nil text, literals_text h]
  rfl

theorem isQuote_bracket : isQuote ']' = false := by decide

theorem quote_ne_bracket {c : Char} (h : isQuote c) : c ≠ ']' := by
  rintro rfl
  rw [isQuote_bracket] at h
  cases h

theorem literals_takeWhile {items : List Item} (h : ∀ i ∈ items, i.Written) {last : List Char}
    (hlast : IsFiller last) (rest : List Char) :
    literals none ((items.flatMap Item.chars ++ (last ++ ']' :: rest)).takeWhile (· != ']')) =
      (items.takeWhile Item.isOpen).map Item.text := by
  have hfiller : ∀ {s : List Char}, IsFiller s → ∀ c ∈ s, (c != ']') = true :=
    fun hs c hc => bne_iff_ne.mpr (hs c hc).2
  induction items with
  | nil =>
    have hquote : ∀ c ∈ last, isQuote c = false := fun c hc => (hlast c hc).1
    have hinner : (last ++ ']' :: rest).takeWhile (· != ']') = last ++ [] := by
      rw [List.takeWhile_append_of_pos (hfiller hlast), List.takeWhile_cons_of_neg (by simp)]
    rw [List.flatMap_nil, List.nil_append, hinner, literals_filler hquote]
    rfl
  | cons i items ih =>
    have hi := h i List.mem_cons_self
    rw [List.flatMap_cons, List.append_assoc]
    by_cases hopen : i.isOpen
    · have hplain : ∀ c ∈ i.chars, (c != ']') = true := by
        have hquote := bne_iff_ne.mpr (quote_ne_bracket hi.quote)
        have htext : ∀ c ∈ i.text, (c != ']') = true := fun c hc => by
          refine bne_iff_ne.mpr ?_
          rintro rfl
          simp [Item.isOpen, hc] at hopen
        simp only [Item.chars, List.forall_mem_append, List.forall_mem_cons]
        exact ⟨hfiller hi.gap,hquote,htext,hquote,by simp⟩
      rw [List.takeWhile_append_of_pos hplain, literals_item hi, List.takeWhile_cons_of_pos hopen,
        ih fun j hj => h j (List.mem_cons_of_mem _ hj)]
      rfl
    · have hbracket : ']' ∈ i.text := by simpa [Item.isOpen] using hopen
      obtain ⟨u,v,huv,hu⟩ := List.eq_append_cons_of_mem hbracket
      have hsplit : ∀ s, i.chars ++ s = (i.gap ++ i.quote :: u) ++ ']' :: (v ++ i.quote :: s) := by
        simp [Item.chars, huv]
      have hplain : ∀ c ∈ i.gap ++ i.quote :: u, (c != ']') = true := by
        simp only [List.forall_mem_append, List.forall_mem_cons]
        refine ⟨hfiller hi.gap,bne_iff_ne.mpr (quote_ne_bracket hi.quote),fun c hc => ?_⟩
        refine bne_iff_ne.mpr ?_
        rintro rfl
        exact hu hc
      rw [hsplit, List.takeWhile_append_of_pos hplain, List.takeWhile_cons_of_neg (by simp),
        List.append_nil, List.takeWhile_cons_of_neg hopen]
      exact literals_unclosed hi fun c hc => hi.text c (by simp [huv, hc])

theorem requires_eq (text : List Char) : requires text =
    (firstValue keyword bracketed? false text).map fun inner =>
      (literals none inner).map fun item => String.ofList (Text.trim item) := rfl

theorem bracketed?_list (c : Call) :
    bracketed? ('[' :: c.list) = some (c.list.takeWhile (· != ']')) := by
  have hcloses : c.list.contains ']' = true := by simp [Call.list]
  rw [bracketed?, if_pos hcloses]

theorem requires_text {c : Call} (hc : c.Written) :
    requires c.text = some ((c.items.takeWhile Item.isOpen).map Item.requirement) := by
  have hword : ∀ d ∈ keyword, Text.isWord d := List.all_eq_true.mp (by decide)
  have hword_ne : keyword ≠ [] := by decide
  have hopens : isSpace '[' = false := by decide
  have hfound := afterAssign?_append keyword hc.before hc.after hopens c.list
  have hvalue : firstValue keyword bracketed? false c.text =
      some (c.list.takeWhile (· != ']')) := by
    rw [Call.text, firstValue_append hword hc.fresh hc.apart]
    refine firstValue_here ?_ (List.append_ne_nil_of_left_ne_nil hword_ne _)
    rw [hfound, Option.bind_some, bracketed?_list]
  rw [requires_eq, hvalue, Option.map_some, Call.list, literals_takeWhile hc.items hc.last,
    List.map_map]
  rfl

theorem field?_parse {text : List Char} {rs : List String} (h : requires text = some rs) :
    (parse text).field? "install_requires" = some (Json.ofStrings rs) := by
  rw [parse, h, Json.ofFields, Json.field?, Entries.ofList, List.foldl_append]
  exact Entries.find?_insert_self _ _ _

/-- The list is seen whole just when no literal has a bracket in it that closes the list. -/
theorem takeWhile_isOpen_iff {items : List Item} :
    (items.takeWhile Item.isOpen).map Item.requirement = items.map Item.requirement ↔
      ∀ i ∈ items, ']' ∉ i.text := by
  have hopen : ∀ i : Item, i.isOpen ↔ ']' ∉ i.text := by simp [Item.isOpen]
  simp only [← hopen]
  constructor
  · intro h
    have hlength := congrArg List.length h
    rw [List.length_map, List.length_map] at hlength
    exact List.takeWhile_eq_self_iff.mp ((List.takeWhile_prefix _).eq_of_length hlength)
  · intro h
    rw [List.takeWhile_eq_self_iff.mpr h]

theorem strings_ofStrings (rs : List String) :
    DetectedFile.strings (some (Json.ofStrings rs)) = rs := by
  have hstring : Json.string? ∘ Json.string = some := rfl
  have hitems : DetectedFile.strings (some (Json.ofStrings rs)) =
      (rs.map Json.string).filterMap Json.string? := rfl
  rw [hitems, List.filterMap_map, hstring, List.filterMap_some]

theorem dependencies_of_field? {f : DetectedFile} (hparsed : f.failure = none)
    (hdialect : f.entry.dialect = .setupScript) {rs : List String}
    (h : f.content.field? "install_requires" = some (Json.ofStrings rs)) : f.dependencies = rs := by
  simp [DetectedFile.dependencies, DetectedFile.isParsed, hparsed, hdialect, h, strings_ofStrings]

theorem fresh_call {blanks : List Char} (h : ∀ c ∈ blanks, isSpace c) :
    ¬ keyword <:+: "setup(".toList ++ blanks := by
  intro hin
  have hscore : '_' ∈ keyword := by decide
  rcases List.mem_append.mp (hin.subset hscore) with hmem | hmem
  · exact absurd hmem (by decide)
  · exact absurd (h '_' hmem) (by decide)

/-- Of the requirements that a setup script lists as literals those in front of the first closing
bracket are seen, each trimmed and in order, and they are the dependencies of the file. These are
all of them just when no requirement has a closing bracket in it. -/
theorem listed_up_to_bracket {c : Call} (hc : c.Written) :
    (parse c.text).field? "install_requires" =
      some (Json.ofStrings ((c.items.takeWhile Item.isOpen).map Item.requirement)) ∧
    (∀ f : DetectedFile, f.failure = none → f.entry.dialect = .setupScript →
      f.content = parse c.text →
      f.dependencies = (c.items.takeWhile Item.isOpen).map Item.requirement) ∧
    ((c.items.takeWhile Item.isOpen).map Item.requirement = c.items.map Item.requirement ↔
      ∀ i ∈ c.items, ']' ∉ i.text) := by
  have hfield := field?_parse (requires_text hc)
  refine ⟨hfield,fun f hparsed hdialect hcontent => ?_,takeWhile_isOpen_iff⟩
  exact dependencies_of_field? hparsed hdialect (hcontent ▸ hfield)

def setupCall (texts : List (Char × String)) : Call where
  front := "setup(".toList ++ "\n    ".toList
  before := []
  after := [' ']
  items := texts.map fun t => ⟨", ".toList,t.1,t.2.toList⟩
  last := ",\n".toList
  rest := ")\n".toList

theorem written_setupCall (texts : List (Char × String))
    (h : texts.all fun t => isQuote t.1 && t.2.toList.all (!isQuote ·) && !t.2.toList.isEmpty) :
    (setupCall texts).Written := by
  have hblanks : ∀ c ∈ "\n    ".toList, isSpace c := List.all_eq_true.mp (by decide)
  have hfront : ("setup(".toList ++ "\n    ".toList).getLast? = some ' ' := by decide
  have hcomma : IsFiller ", ".toList := by simp [IsFiller, isQuote]
  have hlast : IsFiller ",\n".toList := by simp [IsFiller, isQuote]
  refine ⟨fresh_call hblanks,fun d hd => ?_,List.forall_mem_nil _,List.forall_mem_singleton.mpr rfl,
    ?_,hlast⟩
  · cases hfront.symm.trans hd
    rfl
  · intro i hi
    obtain ⟨t,ht,rfl⟩ := List.mem_map.mp hi
    have hsound := List.all_eq_true.mp h t ht
    simp only [Bool.and_eq_true, List.all_eq_true, Bool.not_eq_true', List.isEmpty_eq_false_iff]
      at hsound
    exact ⟨hcomma,hsound.1.1,hsound.1.2,hsound.2⟩

theorem listed_up_to_bracket_markers :
    (setupCall [('"', " requests>=2 "), ('\'', "tomli; python_version < 3.11")]).Written ∧
    (parse (setupCall [('"', " requests>=2 "), ('\'', "tomli; python_version < 3.11")]).text).field?
      "install_requires" = some (Json.ofStrings ["requests>=2","tomli; python_version < 3.11"]) := by
  have hwritten := written_setupCall
    [('"', " requests>=2 "), ('\'', "tomli; python_version < 3.11")] (by decide)
  refine ⟨hwritten,(listed_up_to_bracket hwritten).1.trans ?_⟩
  decide

/-- An extra of a requirement is named in brackets, which end the list. -/
theorem extra_ends_list :
    ¬ ∀ c : Call, c.Written → c.items ≠ [] →
      (∀ i ∈ c.items, Text.trim i.text ≠ [] ∧ '\n' ∉ i.text) →
      (parse c.text).field? "install_requires" =
        some (Json.ofStrings (c.items.map Item.requirement)) := by
  intro hlisted
  have hwritten := written_setupCall [('"', "uvicorn[standard]"), ('"', "click")] (by decide)
  have hall := hlisted _ hwritten (by decide) (by decide)
  have hnone : (parse (setupCall [('"', "uvicorn[standard]"), ('"', "click")]).text).field?
      "install_requires" = some (Json.ofStrings []) := by
    rw [field?_parse (requires_text hwritten)]
    decide
  rw [hnone] at hall
  exact absurd hall (by decide)

end Workbench.SetupScript

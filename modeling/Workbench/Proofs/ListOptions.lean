import Workbench.Adapter
import Workbench.Proofs.Entries
import Workbench.Proofs.TextLines
set_option autoImplicit false

/-! Lists as values of options. A list may be an array, or a text with one item on each line. Both
give the same arguments where items are joined by commas or by spaces, as long as no item has a
blank in it or a comma at its end. -/

namespace Workbench

namespace Text

/-- What can stand in a list without quotes: a text without blanks and with no comma at its end. -/
structure IsItem (s : List Char) : Prop where
  ne_nil : s ≠ []
  solid : ∀ c ∈ s, isBlank c = false
  no_comma : s.getLast? ≠ some ','

instance (s : List Char) : Decidable (IsItem s) :=
  decidable_of_iff (s ≠ [] ∧ s.all (fun c => !isBlank c) ∧ s.getLast? ≠ some ',')
    ⟨fun ⟨hne,hsolid,hcomma⟩ => ⟨hne,by simpa using hsolid,hcomma⟩,
      fun h => ⟨h.1,by simpa using h.2,h.3⟩⟩

theorem words_append_cons {c : Char} (hc : isBlank c) (s t : List Char) :
    words (s ++ c :: t) = words s ++ words t := by
  rw [words, pieces_append_cons hc, List.filter_append, words, words]

theorem IsItem.words_eq {s : List Char} (h : IsItem s) : words s = [s] := by
  have hpieces : pieces isBlank (s ++ []) = [s ++ []] := pieces_append h.solid rfl
  rw [List.append_nil] at hpieces
  simp [words, hpieces, h.ne_nil]

theorem words_join {c : Char} (hc : isBlank c) {items : List (List Char)}
    (h : ∀ s ∈ items, IsItem s) : words (join [c] items) = items := by
  induction items with
  | nil => rfl
  | cons s items ih =>
    have hs := (h s List.mem_cons_self).words_eq
    have hrest := ih fun t ht => h t (List.mem_cons_of_mem _ ht)
    cases items with
    | nil => exact hs
    | cons t items =>
      have hsplit : join [c] (s :: t :: items) = s ++ c :: join [c] (t :: items) := by
        simp [join]
      rw [hsplit, words_append_cons hc, hs, hrest, List.singleton_append]

def lineItems (s : List Char) : List (List Char) :=
  ((lines s).map fun l => dropEndWhile (· == ',') (trim l)).filter fun l => !l.isEmpty

variable {s sep : List Char}

theorem IsItem.append_solid (h : IsItem s) (hsep : ∀ c ∈ sep, c = ',') :
    ∀ c ∈ s ++ sep, isBlank c = false := by
  intro c hc
  rcases List.mem_append.mp hc with hc | hc
  · exact h.solid c hc
  · rw [hsep c hc]
    rfl

theorem IsItem.of_line (h : IsItem s) (hsep : ∀ c ∈ sep, c = ',') :
    dropEndWhile (· == ',') (trim (s ++ sep)) = s := by
  have hcommas : ∀ c ∈ sep, (c == ',') = true := fun c hc => beq_iff_eq.mpr (hsep c hc)
  rw [trim_eq_self (h.append_solid hsep), dropEndWhile_append hcommas]
  refine dropEndWhile_eq_self fun c hc => beq_false_of_ne ?_
  rintro rfl
  exact h.no_comma hc

theorem IsItem.newline_not_mem (h : IsItem s) (hsep : ∀ c ∈ sep, c = ',') : '\n' ∉ s ++ sep := by
  intro hmem
  have hsolid := h.append_solid hsep '\n' hmem
  exact Bool.noConfusion hsolid

theorem lineItems_line (h : IsItem s) (hsep : ∀ c ∈ sep, c = ',') (t : List Char) :
    lineItems ((s ++ sep) ++ '\n' :: t) = s :: lineItems t := by
  rw [lineItems, lines_line (h.newline_not_mem hsep), List.map_cons, trim_dropReturn,
    h.of_line hsep, List.filter_cons_of_pos (by simpa using h.ne_nil), lineItems]

theorem lineItems_join (hsep : ∀ c ∈ sep, c = ',') {items : List (List Char)}
    (h : ∀ s ∈ items, IsItem s) : lineItems (join (sep ++ ['\n']) items) = items := by
  induction items with
  | nil => rfl
  | cons s items ih =>
    have hs := h s List.mem_cons_self
    have hrest := ih fun t ht => h t (List.mem_cons_of_mem _ ht)
    cases items with
    | nil =>
      have hnone : ∀ c ∈ ([] : List Char), c = ',' := by simp
      have hline := hs.newline_not_mem hnone
      have hitem := hs.of_line hnone
      rw [List.append_nil] at hline hitem
      simp [lineItems, join, lines_of_not_mem hline hs.ne_nil, hitem, hs.ne_nil]
    | cons t items =>
      have hsplit : join (sep ++ ['\n']) (s :: t :: items) =
          (s ++ sep) ++ '\n' :: join (sep ++ ['\n']) (t :: items) := by
        simp [join]
      rw [hsplit, lineItems_line hs hsep, hrest]

theorem toList_joined (sep : String) (items : List String) :
    (joined sep items).toList = join sep.toList (items.map String.toList) := String.toList_ofList

end Text

namespace Adapter

variable {a : Adapter} {items : List String}

/-- The styles in which a list becomes one text. -/
def JoinsLists (a : Adapter) : Prop := a.style = .longCommaJoined ∨ a.style = .iniOverride

def argsOf (a : Adapter) (s : String × Json) : List (List Char) :=
  if a.style = .iniOverride then iniArgs s else a.longArgsOf s

theorem settingArgs_of_joinsLists (h : a.JoinsLists) (settings : Settings) :
    a.settingArgs settings = (settings.filter isUsable).flatMap a.argsOf := by
  have hargs : a.argsOf = if a.style = .iniOverride then iniArgs else a.longArgsOf := by
    unfold argsOf
    split_ifs <;> rfl
  rcases h with h | h <;> simp [settingArgs, hargs, h]

theorem build_insert_congr (h : a.JoinsLists) {key : String} {v w : Json}
    (hv : v.isNull = false) (hw : w.isNull = false) (hargs : a.argsOf (key, v) = a.argsOf (key, w))
    (settings : Settings) (target : Option String) (custom : List String) :
    a.build (settings.insert key v) target custom =
      a.build (settings.insert key w) target custom := by
  obtain ⟨front,back,hinsert⟩ := Entries.exists_insert key settings
  have husable : isUsable (key, v) = isUsable (key, w) := by simp [isUsable, hv, hw]
  have hsettings : a.settingArgs (settings.insert key v) =
      a.settingArgs (settings.insert key w) := by
    rw [settingArgs_of_joinsLists h, settingArgs_of_joinsLists h, hinsert v, hinsert w]
    simp only [List.filter_append, List.filter_cons, List.flatMap_append, husable]
    split_ifs
    · rw [List.flatMap_cons, List.flatMap_cons, hargs]
    · rfl
  rw [build, build, hsettings]

theorem scalar_comp_string : scalar ∘ Json.string = String.toList := rfl

section LongCommaJoined

variable (hstyle : a.style = .longCommaJoined)
include hstyle

theorem argsOf_long (s : String × Json) : a.argsOf s = a.longArgsOf s := by
  have hother : a.style ≠ .iniOverride := by simp [hstyle]
  rw [argsOf, if_neg hother]

theorem longArgs_string (flag : List Char) (s : String) : a.longArgs flag (.string s) =
    [flag, if '\n' ∈ s.toList then commaJoinLines s.toList else s.toList] := by
  simp only [longArgs, hstyle, decide_true, Bool.true_and, List.contains_iff_mem]
  split_ifs <;> rfl

theorem longArgs_strings (flag : List Char) (hne : items ≠ []) :
    a.longArgs flag (.ofStrings items) = [flag, (Text.joined "," items).toList] := by
  simp [longArgs, hstyle, Json.ofStrings, hne, commaJoined, scalar_comp_string,
    Text.toList_joined]

end LongCommaJoined

section Items

variable (hitems : ∀ s ∈ items, Text.IsItem s.toList)
include hitems

theorem long_text_eq {sep : String} {commas : List Char} (hsep : sep.toList = commas ++ ['\n'])
    (hcommas : ∀ c ∈ commas, c = ',') :
    (if '\n' ∈ (Text.joined sep items).toList then commaJoinLines (Text.joined sep items).toList
      else (Text.joined sep items).toList) = (Text.joined "," items).toList := by
  rw [Text.toList_joined, Text.toList_joined, hsep]
  split_ifs with hmem
  · exact congrArg (Text.join [','])
      (Text.lineItems_join hcommas (List.forall_mem_map.mpr hitems))
  · rcases items with _ | ⟨s,_ | ⟨t,items⟩⟩
    · rfl
    · rfl
    · exact absurd (by simp [Text.join]) hmem

theorem longArgsOf_text (hstyle : a.style = .longCommaJoined) (hne : items ≠ []) (key : String)
    {sep : String} {commas : List Char} (hsep : sep.toList = commas ++ ['\n'])
    (hcommas : ∀ c ∈ commas, c = ',') :
    a.longArgsOf (key, .ofStrings items) = a.longArgsOf (key, .string (Text.joined sep items)) := by
  have hsame : ∀ flag, a.longArgs flag (.ofStrings items) =
      a.longArgs flag (.string (Text.joined sep items)) := by
    intro flag
    rw [longArgs_strings hstyle flag hne, longArgs_string hstyle, long_text_eq hitems hsep hcommas]
  simp only [longArgsOf, hsame]

theorem iniArgs_text (key : String) :
    iniArgs (key, .ofStrings items) = iniArgs (key, .string (Text.joined "\n" items)) := by
  have hwords : Text.words (Text.joined "\n" items).toList = items.map String.toList := by
    rw [Text.toList_joined]
    exact Text.words_join rfl (List.forall_mem_map.mpr hitems)
  simp [iniArgs, splitWords, iniValue, scalar, Json.ofStrings, hwords, scalar_comp_string]

end Items

/-- The same is passed whether the value of an option is the array of its items or the text with
one item on each line, and with commas between the items as well where they are joined by commas. -/
theorem build_array_eq_text (h : a.JoinsLists) (hne : items ≠ [])
    (hitems : ∀ s ∈ items, Text.IsItem s.toList) (settings : Settings) (key : String)
    (target : Option String) (custom : List String) :
    a.build (settings.insert key (.ofStrings items)) target custom =
      a.build (settings.insert key (.string (Text.joined "\n" items))) target custom ∧
    (a.style = .longCommaJoined →
      a.build (settings.insert key (.ofStrings items)) target custom =
        a.build (settings.insert key (.string (Text.joined ",\n" items))) target custom) := by
  constructor
  · refine build_insert_congr h rfl rfl ?_ settings target custom
    rcases h with hstyle | hstyle
    · rw [argsOf_long hstyle, argsOf_long hstyle]
      have hsep : "\n".toList = [] ++ ['\n'] := rfl
      exact longArgsOf_text hitems hstyle hne key hsep (by simp)
    · rw [argsOf, argsOf, if_pos hstyle, if_pos hstyle, iniArgs_text hitems]
  · intro hstyle
    refine build_insert_congr h rfl rfl ?_ settings target custom
    rw [argsOf_long hstyle, argsOf_long hstyle]
    have hsep : ",\n".toList = [','] ++ ['\n'] := rfl
    exact longArgsOf_text hitems hstyle hne key hsep (by simp)

theorem build_array_eq_text_codes : ∃ a ∈ table, a.style = .longCommaJoined ∧
    (∀ s ∈ ["E203", "W503"], Text.IsItem s.toList) ∧
    a.build [("extend-ignore", .ofStrings ["E203", "W503"])] none [] =
      a.build [("extend-ignore", .string "E203,\nW503")] none [] := by
  have hitems : ∀ s ∈ ["E203", "W503"], Text.IsItem s.toList := by decide
  have htext : Text.joined ",\n" ["E203", "W503"] = "E203,\nW503" := rfl
  refine ⟨row "flake8" .lint [] .longCommaJoined .path,by simp [table],rfl,hitems,?_⟩
  rw [← htext]
  exact (build_array_eq_text (Or.inl rfl) (by simp) hitems [] "extend-ignore" none []).2 rfl

end Adapter
end Workbench

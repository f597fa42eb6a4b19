import Workbench.Extract
import Workbench.Proofs.Trimming
set_option autoImplicit false

namespace Workbench.DetectedFile

def isPartMark (c : Char) : Bool := c == '.' || c == '-' || c == ':'

/-- A name for a tool itself, or for a part of it. -/
inductive NameFor (others : List String) (tool : String) : String → Option String → Prop where
  | own : NameFor others tool tool none
  | other {name : String} : name ∈ others → NameFor others tool name none
  | part {mark : Char} {sub : String} : isPartMark mark → sub ≠ "" →
      NameFor others tool (tool.push mark ++ sub) (some sub)

/-- A section belongs to a tool by a name for it, with or without `tool:` before. -/
inductive Belongs (others : List String) (tool : String) : String → Option String → Prop where
  | bare {name : String} {part : Option String} :
      NameFor others tool name part → Belongs others tool name part
  | marked {name : String} {part : Option String} :
      NameFor others tool name part → Belongs others tool ("tool:" ++ name) part

/-- The names for a tool cannot be taken for one another. -/
structure Unambiguous (others : List String) (tool : String) : Prop where
  unmarked : ∀ name ∈ tool :: others, ¬ "tool:".toList <+: name.toList
  not_before_mark : ¬ tool.toList <+: "tool:".toList
  apart : ∀ name ∈ others, ¬ tool.toList <+: name.toList

theorem unambiguous_of_known {others : List String} {tool : String} (ht : tool ∈ knownTools)
    (ho : others ⊆ ownSectionNames tool) : Unambiguous others tool := by
  have hall : ∀ t ∈ knownTools,
      (∀ name ∈ t :: ownSectionNames t, ¬ "tool:".toList <+: name.toList) ∧
      ¬ t.toList <+: "tool:".toList ∧ ∀ name ∈ ownSectionNames t, ¬ t.toList <+: name.toList := by
    decide
  obtain ⟨hunmarked,hmark,hapart⟩ := hall tool ht
  exact ⟨fun name hn => hunmarked name (List.cons_subset_cons tool ho hn),hmark,
    fun name hn => hapart name (ho hn)⟩

theorem toList_partName (tool : String) (mark : Char) (sub : String) :
    (tool.push mark ++ sub).toList = tool.toList ++ mark :: sub.toList := by
  simp

variable {others : List String} {tool : String}

def SectionRole.ofPart : Option String → SectionRole
  | none => .main
  | some s => .sub s

/-- What a name says when nothing is to be taken off it. -/
def bareRole (others : List String) (tool name : String) : SectionRole :=
  if name = tool || others.contains name then .main
  else match Text.stripStart? tool.toList name.toList with
    | some (c :: sub) =>
      if isPartMark c && !sub.isEmpty then .sub (String.ofList sub) else .other
    | _ => .other

/-- The name behind `tool:`, or the name as it is. -/
def bareName (name : String) : String :=
  String.ofList ((Text.stripStart? "tool:".toList name.toList).getD name.toList)

theorem toList_bareName (name : String) : (bareName name).toList =
    (Text.stripStart? "tool:".toList name.toList).getD name.toList := String.toList_ofList

theorem sectionRole_eq (others : List String) (tool name : String) :
    sectionRole others tool name = bareRole others tool (bareName name) := by
  rw [bareRole, toList_bareName]
  rfl

theorem bareRole_eq_main_iff {name : String} :
    bareRole others tool name = .main ↔ NameFor others tool name none := by
  constructor
  · intro h
    unfold bareRole at h
    split at h
    · next hname =>
      simp only [Bool.or_eq_true, decide_eq_true_eq, List.contains_iff_mem] at hname
      rcases hname with rfl | hname
      · exact .own
      · exact .other hname
    · split at h
      · split at h <;> cases h
      · cases h
  · intro h
    cases h with
    | own => simp [bareRole]
    | other hname => simp [bareRole, hname]

theorem bareRole_eq_sub_iff (hun : Unambiguous others tool) {name sub : String} :
    bareRole others tool name = .sub sub ↔ NameFor others tool name (some sub) := by
  constructor
  · intro h
    unfold bareRole at h
    split at h
    · cases h
    · split at h
      · next c rest hrest =>
        split at h
        · next hmark =>
          cases h
          have hname : name = tool.push c ++ String.ofList rest := by
            apply String.toList_inj.mp
            rw [toList_partName, String.toList_ofList, Text.eq_append_of_stripStart? hrest]
          simp only [Bool.and_eq_true, Bool.not_eq_true', List.isEmpty_eq_false_iff] at hmark
          rw [hname]
          exact .part hmark.1 (by simpa using hmark.2)
        · cases h
      · cases h
  · intro h
    cases h with
    | @part mark _ hmark hsub =>
      have hne : tool.push mark ++ sub ≠ tool := fun he => by
        simpa using congrArg String.toList he
      have hchars := toList_partName tool mark sub
      have hout : tool.push mark ++ sub ∉ others := fun hm =>
        hun.apart _ hm ⟨mark :: sub.toList,hchars.symm⟩
      have hrest : sub.toList.isEmpty = false := by simpa using hsub
      rw [bareRole, hchars, Text.stripStart?_append]
      simp [hne, hout, hmark, hrest]

theorem bareRole_eq_iff (hun : Unambiguous others tool) {name : String} {part : Option String} :
    bareRole others tool name = .ofPart part ↔ NameFor others tool name part := by
  cases part with
  | none => exact bareRole_eq_main_iff
  | some sub => exact bareRole_eq_sub_iff hun

theorem bareName_marked (name : String) : bareName ("tool:" ++ name) = name := by
  rw [bareName, String.toList_append, Text.stripStart?_append, Option.getD_some,
    String.ofList_toList]

theorem bareName_of_none {name : String}
    (h : Text.stripStart? "tool:".toList name.toList = none) : bareName name = name := by
  rw [bareName, h, Option.getD_none, String.ofList_toList]

theorem eq_or_marked_bareName (name : String) :
    name = bareName name ∨ name = "tool:" ++ bareName name := by
  cases h : Text.stripStart? "tool:".toList name.toList with
  | none => exact Or.inl (bareName_of_none h).symm
  | some rest =>
    refine Or.inr (String.toList_inj.mp ?_)
    rw [String.toList_append, toList_bareName, h, Option.getD_some]
    exact Text.eq_append_of_stripStart? h

theorem NameFor.bareName_eq (hun : Unambiguous others tool) {name : String} {part : Option String}
    (h : NameFor others tool name part) : bareName name = name := by
  have hunmarked : ¬ "tool:".toList <+: name.toList := by
    cases h with
    | own => exact hun.unmarked _ List.mem_cons_self
    | other hname => exact hun.unmarked _ (List.mem_cons_of_mem _ hname)
    | @part mark sub _ _ =>
      intro hp
      have htool : tool.toList <+: (tool.push mark ++ sub).toList :=
        ⟨mark :: sub.toList,(toList_partName tool mark sub).symm⟩
      -- of two texts that a name begins with, one begins with the other
      rcases List.prefix_or_prefix_of_prefix hp htool with hp | hp
      · exact hun.unmarked _ List.mem_cons_self hp
      · exact hun.not_before_mark hp
  exact bareName_of_none (Text.stripStart?_eq_none_iff.mpr hunmarked)

/-- The role of a section is what its name says. -/
theorem sectionRole_eq_iff (hun : Unambiguous others tool) {name : String} {part : Option String} :
    sectionRole others tool name = .ofPart part ↔ Belongs others tool name part := by
  rw [sectionRole_eq, bareRole_eq_iff hun]
  constructor
  · intro h
    rcases eq_or_marked_bareName name with hname | hname <;> rw [hname]
    · exact .bare h
    · exact .marked h
  · intro h
    cases h with
    | bare h => rwa [h.bareName_eq hun]
    | marked h => rwa [bareName_marked]

theorem sectionRole_eq_main_iff (hun : Unambiguous others tool) {name : String} :
    sectionRole others tool name = .main ↔ Belongs others tool name none := by
  rw [← sectionRole_eq_iff hun, SectionRole.ofPart]

theorem sectionRole_eq_sub_iff (hun : Unambiguous others tool) {name sub : String} :
    sectionRole others tool name = .sub sub ↔ Belongs others tool name (some sub) := by
  rw [← sectionRole_eq_iff hun, SectionRole.ofPart]

theorem sectionRole_eq_other_iff (hun : Unambiguous others tool) {name : String} :
    sectionRole others tool name = .other ↔ ∀ part, ¬ Belongs others tool name part := by
  constructor
  · intro h part hb
    rw [← sectionRole_eq_iff hun, h] at hb
    cases part <;> cases hb
  · intro h
    cases hr : sectionRole others tool name with
    | main => exact absurd ((sectionRole_eq_main_iff hun).mp hr) (h none)
    | sub s => exact absurd ((sectionRole_eq_sub_iff hun).mp hr) (h (some s))
    | other => rfl

end Workbench.DetectedFile

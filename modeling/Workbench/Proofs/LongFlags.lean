import Workbench.Proofs.Entries
import Workbench.Service
set_option autoImplicit false

/-! Settings as long flags. Each setting that is passed on gives arguments that begin with its flag,
and the settings come in the order of their keys. Two of them share a flag just when their keys have
the same last segment, where that names the flag, or when one key has the other as its flag's name:
then both are passed, and it is the later key, not the later source, that comes last. -/

namespace Workbench.Adapter

def segment (a : Adapter) (key : String) : String :=
  if a.leafKeys then String.ofList (lastSegment key.toList) else key

def renamed (renames : List (String × String)) (name : String) : String :=
  ((renames.find? fun r => r.1 == name).map Prod.snd).getD name

theorem flagName?_eq_some_iff {a : Adapter} {key : String} {flag : List Char} :
    a.flagName? key = some flag ↔ isPlain (a.segment key).toList ∧
      flag = '-' :: '-' :: (renamed a.renames (a.segment key)).toList := by
  have hkey : (if a.leafKeys then lastSegment key.toList else key.toList) =
      (a.segment key).toList := by
    unfold segment
    split_ifs
    · rw [String.toList_ofList]
    · rfl
  simp only [flagName?, hkey, String.ofList_toList, renamed]
  by_cases hplain : isPlain (a.segment key).toList
  · cases a.renames.find? fun r => r.1 == a.segment key <;> simp [hplain, eq_comm]
  · simp [hplain]

/-- No name is renamed twice, no two get the same name, and none gets a name that is renamed. -/
def TidyRenames (renames : List (String × String)) : Prop :=
  (renames.map Prod.fst).Nodup ∧ (renames.map Prod.snd).Nodup ∧
    ∀ r ∈ renames, ∀ s ∈ renames, r.2 ≠ s.1

instance (renames : List (String × String)) : Decidable (TidyRenames renames) :=
  inferInstanceAs (Decidable (_ ∧ _ ∧ _))

theorem tidy_of_mem_table : ∀ a ∈ table, TidyRenames a.renames := by decide

theorem renamed_of_mem {renames : List (String × String)}
    (h : (renames.map Prod.fst).Nodup) {name newName : String} (hmem : (name, newName) ∈ renames) :
    renamed renames name = newName := by
  induction renames with
  | nil => cases hmem
  | cons r renames ih =>
    obtain ⟨hfirst,hrest⟩ := List.nodup_cons.mp h
    rcases List.mem_cons.mp hmem with rfl | hmem
    · simp [renamed]
    · have hne : r.1 ≠ name := fun he => hfirst (he ▸ List.mem_map_of_mem hmem)
      have hlater := ih hrest hmem
      simpa [renamed, hne] using hlater

theorem renamed_of_not_mem {renames : List (String × String)} {name : String}
    (h : name ∉ renames.map Prod.fst) : renamed renames name = name := by
  have hnone : (renames.find? fun r => r.1 == name) = none := by
    rw [List.find?_eq_none]
    intro r hr hsame
    exact h (beq_iff_eq.mp hsame ▸ List.mem_map_of_mem hr)
  rw [renamed, hnone]
  rfl

theorem renamed_eq_iff {renames : List (String × String)} (h : TidyRenames renames)
    {k l : String} :
    renamed renames k = renamed renames l ↔ k = l ∨ (k, l) ∈ renames ∨ (l, k) ∈ renames := by
  obtain ⟨hfst,hsnd,hapart⟩ := h
  have hpair : ∀ {name : String}, name ∈ renames.map Prod.fst →
      (name, renamed renames name) ∈ renames := by
    intro name hname
    obtain ⟨r,hr,rfl⟩ := List.mem_map.mp hname
    rw [renamed_of_mem hfst hr]
    exact hr
  -- a name that is given is not renamed again, so it stands for itself
  have hend : ∀ {name newName : String}, (name, newName) ∈ renames →
      renamed renames newName = newName := fun hmem => renamed_of_not_mem fun hname => by
    obtain ⟨r,hr,he⟩ := List.mem_map.mp hname
    exact hapart _ hmem r hr he.symm
  constructor
  · intro hsame
    by_cases hk : k ∈ renames.map Prod.fst
    · have hk' := hpair hk
      by_cases hl : l ∈ renames.map Prod.fst
      · have hl' := hpair hl
        rw [← hsame] at hl'
        exact Or.inl (congrArg Prod.fst (List.inj_on_of_nodup_map hsnd hk' hl' rfl))
      · rw [hsame, renamed_of_not_mem hl] at hk'
        exact Or.inr (Or.inl hk')
    · rw [renamed_of_not_mem hk] at hsame
      by_cases hl : l ∈ renames.map Prod.fst
      · have hl' := hpair hl
        rw [← hsame] at hl'
        exact Or.inr (Or.inr hl')
      · rw [renamed_of_not_mem hl] at hsame
        exact Or.inl hsame
  · rintro (rfl | hmem | hmem)
    · rfl
    · rw [renamed_of_mem hfst hmem, hend hmem]
    · rw [renamed_of_mem hfst hmem, hend hmem]

def SameName (a : Adapter) (k l : String) : Prop :=
  a.segment k = a.segment l ∨ (a.segment k, a.segment l) ∈ a.renames ∨
    (a.segment l, a.segment k) ∈ a.renames

theorem flag_eq_iff {a : Adapter} (ha : a ∈ table) {k l : String} {flag flag' : List Char}
    (hk : a.flagName? k = some flag) (hl : a.flagName? l = some flag') :
    flag = flag' ↔ a.SameName k l := by
  obtain ⟨_,rfl⟩ := flagName?_eq_some_iff.mp hk
  obtain ⟨_,rfl⟩ := flagName?_eq_some_iff.mp hl
  rw [SameName, ← renamed_eq_iff (tidy_of_mem_table a ha)]
  simp [String.toList_inj]

structure FlagGroup where
  key : String
  flag : List Char
  args : List (List Char)

def IsLong (a : Adapter) : Prop := a.style = .longRepeated ∨ a.style = .longCommaJoined

def flagGroup? (a : Adapter) (s : String × Json) : Option FlagGroup :=
  match a.flagName? s.1 with
  | some flag =>
    if (a.longArgs flag s.2).isEmpty then none else some ⟨s.1, flag, a.longArgs flag s.2⟩
  | none => none

def flagGroups (a : Adapter) (settings : Settings) : List FlagGroup :=
  (settings.filter isUsable).filterMap a.flagGroup?

structure FlagGroup.From (g : FlagGroup) (a : Adapter) (s : String × Json) : Prop where
  key_eq : s.1 = g.key
  usable : isUsable s
  name_eq : a.flagName? g.key = some g.flag
  args_eq : g.args = a.longArgs g.flag s.2
  ne_nil : g.args ≠ []

theorem flagGroup?_eq_some_iff {a : Adapter} {s : String × Json} (hs : isUsable s)
    {g : FlagGroup} : a.flagGroup? s = some g ↔ g.From a s := by
  obtain ⟨key,v⟩ := s
  constructor
  · intro h
    unfold flagGroup? at h
    cases hname : a.flagName? key with
    | none => simp [hname] at h
    | some flag =>
      by_cases hnil : (a.longArgs flag v).isEmpty
      · simp [hname, hnil] at h
      · simp only [hname, hnil, Bool.false_eq_true, if_false, Option.some.injEq] at h
        subst h
        exact ⟨rfl,hs,hname,rfl,by simpa using hnil⟩
  · rintro ⟨rfl,_,hname,hargs,hne⟩
    simp [flagGroup?, hname, hne, ← hargs]

theorem mem_flagGroups {a : Adapter} {settings : Settings} {g : FlagGroup} :
    g ∈ a.flagGroups settings ↔ ∃ s ∈ settings, g.From a s := by
  rw [flagGroups, List.mem_filterMap]
  constructor
  · rintro ⟨s,hs,hg⟩
    obtain ⟨hmem,husable⟩ := List.mem_filter.mp hs
    exact ⟨s,hmem,(flagGroup?_eq_some_iff husable).mp hg⟩
  · rintro ⟨s,hmem,hg⟩
    exact ⟨s,List.mem_filter.mpr ⟨hmem,hg.usable⟩,(flagGroup?_eq_some_iff hg.usable).mpr hg⟩

theorem longArgsOf_eq (a : Adapter) (s : String × Json) :
    a.longArgsOf s = (a.flagGroup? s).toList.flatMap FlagGroup.args := by
  unfold longArgsOf flagGroup?
  cases a.flagName? s.1 with
  | none => rfl
  | some flag =>
    by_cases hnil : a.longArgs flag s.2 = []
    · simp [hnil]
    · simp [hnil]

theorem settingArgs_eq {a : Adapter} (hlong : a.IsLong) (settings : Settings) :
    a.settingArgs settings = (a.flagGroups settings).flatMap FlagGroup.args := by
  have hrun : ∀ usable : Settings, usable.flatMap a.longArgsOf =
      (usable.filterMap a.flagGroup?).flatMap FlagGroup.args := by
    intro usable
    induction usable with
    | nil => rfl
    | cons s usable ih =>
      rw [List.flatMap_cons, longArgsOf_eq, ih, List.filterMap_cons]
      cases a.flagGroup? s <;> simp
  rcases hlong with h | h <;> simp only [settingArgs, h, hrun, flagGroups]

theorem head_longArgs (a : Adapter) (flag : List Char) (v : Json)
    (h : a.longArgs flag v ≠ []) : (a.longArgs flag v).head? = some flag := by
  cases v with
  | null => simp [longArgs] at h
  | bool b =>
    cases b with
    | false => simp [longArgs] at h
    | true => rfl
  | number n => rfl
  | object fs => rfl
  | string s =>
    simp only [longArgs]
    split_ifs <;> rfl
  | array items =>
    cases items with
    | nil => simp [longArgs] at h
    | cons x xs =>
      simp only [longArgs, List.isEmpty_cons, Bool.false_eq_true, if_false]
      split_ifs <;> rfl

theorem pairwise_flagGroups {a : Adapter} (ha : a ∈ table) {settings : Settings}
    (hs : settings.Ordered) :
    (a.flagGroups settings).Pairwise fun g h =>
      g.key < h.key ∧ (g.flag = h.flag ↔ a.SameName g.key h.key) := by
  rw [flagGroups, List.pairwise_filterMap]
  refine (hs.filter isUsable).imp_of_mem fun hs hs' hlt g hg g' hg' => ?_
  have hfrom := (flagGroup?_eq_some_iff (List.mem_filter.mp hs).2).mp hg
  have hfrom' := (flagGroup?_eq_some_iff (List.mem_filter.mp hs').2).mp hg'
  refine ⟨?_,flag_eq_iff ha hfrom.name_eq hfrom'.name_eq⟩
  rw [← hfrom.key_eq, ← hfrom'.key_eq]
  exact hlt

/-- Settings as long flags: every setting that gives arguments gives them in one piece, which begins
with its flag, and the pieces stand in the order of the keys. Two of them have one flag just when
their keys name one flag, so none have where flags are named by whole keys. -/
theorem long_flags_by_key {a : Adapter} (ha : a ∈ table) (hlong : a.IsLong) {settings : Settings}
    (hs : settings.Ordered) (target : Option String) (custom : List String) :
    (a.build settings target custom).args =
      a.leading ++ (a.flagGroups settings).flatMap (fun g => g.args.map String.ofList) ++
        (a.targetArgs target).map String.ofList ++ custom ∧
    (∀ g, g ∈ a.flagGroups settings ↔ ∃ s ∈ settings, g.From a s) ∧
    (∀ g ∈ a.flagGroups settings, g.args.head? = some g.flag) ∧
    ((a.flagGroups settings).Pairwise fun g h =>
      g.key < h.key ∧ (g.flag = h.flag ↔ a.SameName g.key h.key)) ∧
    (a.leafKeys = false → a.renames = [] →
      ((a.flagGroups settings).map FlagGroup.flag).Nodup) := by
  have hpairwise := pairwise_flagGroups ha hs
  refine ⟨?_,fun g => mem_flagGroups,fun g hg => ?_,hpairwise,fun hleaf hrenames => ?_⟩
  · rw [build, settingArgs_eq hlong, List.map_flatMap]
  · obtain ⟨s,_,hfrom⟩ := mem_flagGroups.mp hg
    have hargs := hfrom.args_eq
    have hne := hfrom.ne_nil
    rw [hargs] at hne ⊢
    exact head_longArgs a g.flag s.2 hne
  · refine List.pairwise_map.mpr (hpairwise.imp fun {g h} hgh hflag => ?_)
    have hsame : g.key = h.key := by
      simpa [SameName, segment, hleaf, hrenames] using hgh.2.mp hflag
    exact ne_of_lt hgh.1 hsame

def pylint : Adapter :=
  { row "pylint" .lint ["--recursive=y"] .longCommaJoined .path with leafKeys := true }

def twoJobs : Settings := [("jobs", Json.ofNat 2), ("main.jobs", Json.ofNat 4)]

theorem ordered_twoJobs : twoJobs.Ordered := List.pairwise_pair.mpr (by decide)

theorem long_flags_by_key_jobs :
    pylint ∈ table ∧ pylint.IsLong ∧ twoJobs.Ordered ∧
      (pylint.build twoJobs none []).args =
        ["--recursive=y"] ++ (pylint.flagGroups twoJobs).flatMap
          (fun g => g.args.map String.ofList) ++ ["."] ++ [] ∧
      (pylint.flagGroups twoJobs).Pairwise fun g h =>
        g.key < h.key ∧ (g.flag = h.flag ↔ pylint.SameName g.key h.key) := by
  have hmem : pylint ∈ table := by decide
  have hlong : pylint.IsLong := Or.inr rfl
  obtain ⟨hargs,_,_,hpairwise,_⟩ := long_flags_by_key hmem hlong ordered_twoJobs none []
  exact ⟨hmem,hlong,ordered_twoJobs,hargs,hpairwise⟩

def jobsFile (jobs : Nat) : DetectedFile :=
  ⟨"pyproject.toml", ⟨"pyproject.toml", .toml, .manifest, [.lint, .format, .test, .deps], none⟩, "",
    .object [("tool", .object [("pylint", .object [("main", .object
      [("jobs", Json.ofNat jobs)])])])], none⟩

/-- What a request asks for stands over the project's setting, but under another key: both are
passed, and the project's number comes last. -/
theorem jobs_passed_twice :
    let settings := Service.runSettings (.merge [jobsFile 4]) .lint "pylint"
      (some [("jobs", Json.ofNat 2)])
    pylint ∈ table ∧ pylint.IsLong ∧ settings.Ordered ∧
      ¬ ((pylint.flagGroups settings).map FlagGroup.flag).Nodup ∧
      (pylint.build settings none []).args =
        ["--recursive=y", "--jobs", "2", "--jobs", "4", "."] := by
  intro settings
  have hsettings : settings = twoJobs := by decide +kernel
  rw [hsettings]
  exact ⟨by decide,Or.inr rfl,ordered_twoJobs,by decide,by decide⟩

end Workbench.Adapter

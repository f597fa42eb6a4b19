import Mathlib.Data.Prod.Lex
import Mathlib.Order.WellFounded
import Workbench.Proofs.HookSettings
import Workbench.Proofs.TextLines
set_option autoImplicit false

/-! Which hook a tool is taken to be configured by. A hook that has the name of the tool for its
identifier comes before all others, wherever it stands; only where there is none, the first hook is
taken whose identifier or whose repository is named after the tool. The settings are what that hook
says, with the revision of the repository that it stands in, and no other hook or repository shows
in them. -/

namespace Workbench

namespace Text

/-- The last part of an address. Slashes behind it do not count. -/
def LastPart (url part : List Char) : Prop :=
  part ≠ [] ∧ '/' ∉ part ∧ ∃ front slashes, url = front ++ part ++ slashes ∧
    (∀ c ∈ front.getLast?, c = '/') ∧ ∀ c ∈ slashes, c = '/'

end Text

namespace DetectedFile

open Text

def lastPiece (url : String) : List Char :=
  (pieces (· == '/') (dropEndWhile (· == '/') url.toList)).getLastD []

theorem lastPiece_of_lastPart {url : String} {part : List Char} (h : LastPart url.toList part) :
    lastPiece url = part := by
  obtain ⟨hne,hplain,front,slashes,hurl,hfront,hslashes⟩ := h
  have hend : ∀ c ∈ (front ++ part).getLast?, (c == '/') = false := by
    intro c hc
    rw [List.getLast?_append_of_ne_nil _ hne] at hc
    exact beq_false_of_ne fun he => hplain (he ▸ List.mem_of_getLast? hc)
  rw [lastPiece, hurl, dropEndWhile_append (by simpa using hslashes), dropEndWhile_eq_self hend,
    getLastD_pieces hplain hfront]

theorem lastPart_lastPiece {url : String} (h : lastPiece url ≠ []) :
    LastPart url.toList (lastPiece url) := by
  obtain ⟨slashes,hslashes,hall⟩ := exists_dropEndWhile (· == '/') url.toList
  obtain ⟨front,last,hfront,hlast,hend⟩ :=
    exists_last_piece '/' (dropEndWhile (· == '/') url.toList)
  have hpiece : lastPiece url = last := by rw [lastPiece, hfront, getLastD_pieces hlast hend]
  rw [hpiece] at h ⊢
  refine ⟨h,hlast,front,slashes,?_,hend,by simpa using hall⟩
  rw [← hfront]
  exact hslashes

/-- A name that is the tool's, or goes on from it behind a hyphen. -/
def After (tool name : String) : Prop := name = tool ∨ ∃ rest, name = tool ++ "-" ++ rest

theorem startsWith_iff {s start : String} : startsWith s start ↔ ∃ rest, s = start ++ rest := by
  rw [startsWith, List.isPrefixOf_iff_prefix]
  constructor
  · rintro ⟨rest,hrest⟩
    exact ⟨String.ofList rest,String.toList_inj.mp (by simp [hrest])⟩
  · rintro ⟨rest,rfl⟩
    exact ⟨rest.toList,by simp⟩

theorem names_iff {tool name : String} : names tool name ↔ After tool name := by
  rw [names, Bool.or_eq_true, beq_iff_eq, startsWith_iff, After]

/-- An address whose last part, without `.git`, is named after the tool. -/
def AddressOf (tool url : String) : Prop :=
  ∃ part name : String, LastPart url.toList part.toList ∧
    (part = name ++ ".git" ∨ part = name ∧ ¬ ".git".toList <:+ part.toList) ∧ After tool name

theorem not_addressOf_empty (tool : String) : ¬ AddressOf tool "" := by
  rintro ⟨part,name,⟨hne,_,front,slashes,hurl,_⟩,_⟩
  have hnil := List.append_eq_nil_iff.mp (hurl.symm.trans String.toList_empty)
  exact hne (List.append_eq_nil_iff.mp hnil.1).2

theorem repoName_eq_iff {url name : String} : repoName url = name ↔
    lastPiece url = name.toList ++ ".git".toList ∨
      lastPiece url = name.toList ∧ ¬ ".git".toList <:+ lastPiece url := by
  have hname : repoName url =
      String.ofList ((stripEnd? ".git".toList (lastPiece url)).getD (lastPiece url)) := rfl
  rw [hname, ← String.toList_inj, String.toList_ofList]
  cases hs : stripEnd? ".git".toList (lastPiece url) with
  | none =>
    have hnot := stripEnd?_eq_none_iff.mp hs
    simp only [Option.getD_none, hnot, not_false_eq_true, and_true]
    exact (or_iff_right fun h => hnot ⟨_,h.symm⟩).symm
  | some t =>
    have hpiece := eq_append_of_stripEnd? hs
    have hsuffix : ".git".toList <:+ lastPiece url := ⟨t,hpiece.symm⟩
    simp only [Option.getD_some, hsuffix, not_true_eq_false, and_false, or_false]
    rw [hpiece, List.append_left_inj]

theorem names_repoName_iff {tool url : String} (ht : tool ≠ "") :
    names tool (repoName url) ↔ AddressOf tool url := by
  rw [names_iff]
  constructor
  · intro h
    have hne : repoName url ≠ "" := by
      rintro hempty
      rcases h with h | ⟨rest,h⟩
      · exact ht (h.symm.trans hempty)
      · simpa using congrArg String.toList (h.symm.trans hempty)
    have hpiece : lastPiece url ≠ [] := fun hnil => hne (by simp [repoName_eq_iff, hnil])
    refine ⟨String.ofList (lastPiece url),repoName url,?_,?_,h⟩
    · rw [String.toList_ofList]
      exact lastPart_lastPiece hpiece
    · rw [← String.toList_inj, ← String.toList_inj, String.toList_append, String.toList_ofList]
      exact repoName_eq_iff.mp rfl
  · rintro ⟨part,name,hpart,hname,hafter⟩
    have hrepo : repoName url = name := by
      rw [repoName_eq_iff, lastPiece_of_lastPart hpart]
      rcases hname with rfl | ⟨rfl,hnot⟩
      · exact Or.inl (String.toList_append ..)
      · exact Or.inr ⟨rfl,hnot⟩
    rw [hrepo]
    exact hafter

/-- The object at a place of the array that a field holds. What is no object has a place, too. -/
def ObjectAt (k : String) (v : Json) (i : Nat) (fields : Entries Json) : Prop :=
  ∃ items, v.field? k = some (.array items) ∧ items[i]? = some (.object fields)

/-- A hook with its repository, at the place of the repository and the hook's place in it. -/
def HookAt (doc : Json) (place : Nat ×ₗ Nat) (repo hook : Entries Json) : Prop :=
  ObjectAt "repos" doc (ofLex place).1 repo ∧ ObjectAt "hooks" (.object repo) (ofLex place).2 hook

def objectsAt (k : String) (v : Json) : List (Nat × Entries Json) :=
  (listAt k v).zipIdx.filterMap fun item => item.1.object?.map fun fields => (item.2,fields)

theorem object?_eq_some_iff {v : Json} {fields : Entries Json} :
    v.object? = some fields ↔ v = .object fields := by
  cases v <;> simp [Json.object?]

theorem string?_eq_some_iff {v : Json} {s : String} : v.string? = some s ↔ v = .string s := by
  cases v <;> simp [Json.string?]

theorem array?_eq_some_iff {v : Json} {items : List Json} :
    v.array? = some items ↔ v = .array items := by
  cases v <;> simp [Json.array?]

theorem getElem?_listAt {k : String} {v w : Json} {i : Nat} :
    (listAt k v)[i]? = some w ↔ ∃ items, v.field? k = some (.array items) ∧ items[i]? = some w := by
  rw [listAt]
  cases hv : (v.field? k).bind Json.array? with
  | none =>
    refine iff_of_false (by simp) ?_
    rintro ⟨items,hitems,_⟩
    rw [hitems] at hv
    cases hv
  | some items =>
    obtain ⟨w',hw',hitems⟩ := Option.bind_eq_some_iff.mp hv
    simp [hw', array?_eq_some_iff.mp hitems]

theorem mem_objectsAt {k : String} {v : Json} {i : Nat} {fields : Entries Json} :
    (i,fields) ∈ objectsAt k v ↔ ObjectAt k v i fields := by
  rw [ObjectAt, ← getElem?_listAt, objectsAt, List.mem_filterMap]
  constructor
  · rintro ⟨⟨w,j⟩,hmem,hw⟩
    obtain ⟨_,hfields,he⟩ := Option.map_eq_some_iff.mp hw
    cases he
    rw [← object?_eq_some_iff.mp hfields]
    exact List.mem_zipIdx_iff_getElem?.mp hmem
  · exact fun hat => ⟨(.object fields,i),List.mem_zipIdx_iff_getElem?.mpr hat,rfl⟩

theorem pairwise_objectsAt (k : String) (v : Json) :
    (objectsAt k v).Pairwise fun a b => a.1 < b.1 := by
  refine (pairwise_zipIdx (listAt k v)).filterMap _ fun a b hab c hc d hd => ?_
  obtain ⟨_,_,rfl⟩ := Option.map_eq_some_iff.mp hc
  obtain ⟨_,_,rfl⟩ := Option.map_eq_some_iff.mp hd
  exact hab

theorem filter_isObject_listAt (k : String) (v : Json) :
    (listAt k v).filter Json.isObject = (objectsAt k v).map fun o => .object o.2 := by
  have hobject : ∀ w : Json, w.object?.map Json.object = Option.guard Json.isObject w := by
    intro w
    cases w <;> rfl
  rw [objectsAt, List.map_filterMap, ← List.filterMap_eq_filter]
  conv_lhs => rw [← List.zipIdx_map_fst 0 (listAt k v), List.filterMap_map]
  refine List.filterMap_congr fun item _ => ?_
  rw [Option.map_map]
  exact (hobject item.1).symm

structure PlacedHook where
  place : Nat ×ₗ Nat
  repo : Entries Json
  hook : Entries Json

def PlacedHook.record (h : PlacedHook) : Hook :=
  ⟨(textAt? "repo" (.object h.repo)).getD "",textAt? "rev" (.object h.repo),
    textAt? "id" (.object h.hook),(h.hook.find? "args").bind Json.array?⟩

def placedHooks (doc : Json) : List PlacedHook :=
  (objectsAt "repos" doc).flatMap fun r =>
    (objectsAt "hooks" (.object r.2)).map fun h => ⟨toLex (r.1,h.1),r.2,h.2⟩

theorem mem_placedHooks {doc : Json} {h : PlacedHook} :
    h ∈ placedHooks doc ↔ HookAt doc h.place h.repo h.hook := by
  rw [placedHooks, List.mem_flatMap, HookAt]
  constructor
  · rintro ⟨⟨i,repo⟩,hrepo,hmem⟩
    obtain ⟨⟨j,hook⟩,hhook,rfl⟩ := List.mem_map.mp hmem
    exact ⟨mem_objectsAt.mp hrepo,mem_objectsAt.mp hhook⟩
  · rintro ⟨hrepo,hhook⟩
    exact ⟨_,mem_objectsAt.mpr hrepo,List.mem_map.mpr ⟨_,mem_objectsAt.mpr hhook,rfl⟩⟩

theorem pairwise_placedHooks (doc : Json) :
    (placedHooks doc).Pairwise fun a b => a.place < b.place := by
  rw [placedHooks, List.pairwise_flatMap]
  constructor
  · intro r _
    rw [List.pairwise_map]
    refine (pairwise_objectsAt "hooks" (.object r.2)).imp fun {a b} hlt => ?_
    exact Prod.Lex.toLex_lt_toLex.mpr (Or.inr ⟨rfl,hlt⟩)
  · refine (pairwise_objectsAt "repos" doc).imp fun {r r'} hlt a ha b hb => ?_
    obtain ⟨_,_,rfl⟩ := List.mem_map.mp ha
    obtain ⟨_,_,rfl⟩ := List.mem_map.mp hb
    exact Prod.Lex.toLex_lt_toLex.mpr (Or.inl hlt)

theorem hooks_eq (doc : Json) : hooks doc = (placedHooks doc).map PlacedHook.record := by
  simp only [hooks, placedHooks, filter_isObject_listAt, List.flatMap_map, List.map_flatMap,
    List.map_map]
  rfl

theorem find?_eq_some_of_first {l : List PlacedHook} {p : PlacedHook → Bool} {a : PlacedHook}
    (h : l.Pairwise fun a b => a.place < b.place) (ha : a ∈ l) (hp : p a)
    (hfirst : ∀ b ∈ l, p b → a.place ≤ b.place) : l.find? p = some a := by
  induction l with
  | nil => cases ha
  | cons c l ih =>
    obtain ⟨hc,h⟩ := List.pairwise_cons.mp h
    rcases List.mem_cons.mp ha with rfl | ha
    · exact List.find?_cons_of_pos hp
    · have hnot : ¬ p c := fun hpc => (hc a ha).not_ge (hfirst c List.mem_cons_self hpc)
      rw [List.find?_cons_of_neg hnot]
      exact ih h ha fun b hb => hfirst b (List.mem_cons_of_mem c hb)

def HasId (tool : String) (_ hook : Entries Json) : Prop := hook.find? "id" = some (.string tool)

def NamedAfter (tool : String) (repo hook : Entries Json) : Prop :=
  (∃ rest, hook.find? "id" = some (.string (tool ++ "-" ++ rest))) ∨
    ∃ url, repo.find? "repo" = some (.string url) ∧ AddressOf tool url

def FirstHook (doc : Json) (kind : Entries Json → Entries Json → Prop)
    (repo hook : Entries Json) : Prop :=
  ∃ place, HookAt doc place repo hook ∧ kind repo hook ∧
    ∀ place' repo' hook', HookAt doc place' repo' hook' → kind repo' hook' → place ≤ place'

/-- The hook besides which there is none of its kind. -/
def OnlyHook (doc : Json) (kind : Entries Json → Entries Json → Prop)
    (repo hook : Entries Json) : Prop :=
  ∃ place, HookAt doc place repo hook ∧ kind repo hook ∧
    ∀ place' repo' hook', HookAt doc place' repo' hook' → kind repo' hook' → place' = place

def NoHook (doc : Json) (kind : Entries Json → Entries Json → Prop) : Prop :=
  ∀ place repo hook, HookAt doc place repo hook → ¬ kind repo hook

variable {doc : Json} {kind : Entries Json → Entries Json → Prop} {repo hook : Entries Json}

theorem OnlyHook.first (h : OnlyHook doc kind repo hook) : FirstHook doc kind repo hook := by
  obtain ⟨place,hat,hkind,honly⟩ := h
  exact ⟨place,hat,hkind,fun place' repo' hook' hat' hkind' =>
    (honly place' repo' hook' hat' hkind').ge⟩

theorem noHook_or_first (doc : Json) (kind : Entries Json → Entries Json → Prop) :
    NoHook doc kind ∨ ∃ repo hook, FirstHook doc kind repo hook := by
  by_cases hno : NoHook doc kind
  · exact Or.inl hno
  · simp only [NoHook, not_forall, not_not] at hno
    obtain ⟨place,repo,hook,hat,hkind⟩ := hno
    obtain ⟨least,⟨repo,hook,hat,hkind⟩,hleast⟩ := wellFounded_lt.has_min
      {place | ∃ repo hook, HookAt doc place repo hook ∧ kind repo hook}
      ⟨place,repo,hook,hat,hkind⟩
    exact Or.inr ⟨repo,hook,least,hat,hkind,fun place' repo' hook' hat' hkind' =>
      not_lt.mp (hleast place' ⟨repo',hook',hat',hkind'⟩)⟩

theorem textAt?_eq_some_iff {k s : String} {fields : Entries Json} :
    textAt? k (.object fields) = some s ↔ fields.find? k = some (.string s) := by
  rw [textAt?, Option.bind_eq_some_iff]
  simp only [string?_eq_some_iff, exists_eq_right]
  rfl

variable {tool : String}

theorem record_hasId {h : PlacedHook} :
    (h.record.id == some tool) ↔ HasId tool h.repo h.hook := by
  rw [beq_iff_eq]
  exact textAt?_eq_some_iff

def Hook.isNamedAfter (tool : String) (h : Hook) : Bool :=
  h.id.any (startsWith · (tool ++ "-")) || names tool (repoName h.url)

theorem record_namedAfter (ht : tool ≠ "") {h : PlacedHook} :
    h.record.isNamedAfter tool ↔ NamedAfter tool h.repo h.hook := by
  rw [Hook.isNamedAfter, Bool.or_eq_true, Option.any_eq_true, names_repoName_iff ht, NamedAfter]
  refine or_congr ?_ ?_
  · simp only [startsWith_iff]
    constructor
    · rintro ⟨id,hid,rest,rfl⟩
      exact ⟨rest,textAt?_eq_some_iff.mp hid⟩
    · rintro ⟨rest,hid⟩
      exact ⟨_,textAt?_eq_some_iff.mpr hid,rest,rfl⟩
  · have hurl : h.record.url = (textAt? "repo" (.object h.repo)).getD "" := rfl
    simp only [← textAt?_eq_some_iff, hurl]
    cases textAt? "repo" (.object h.repo) with
    | none => simpa using not_addressOf_empty tool
    | some url => simp

theorem FirstHook.find? (h : FirstHook doc kind repo hook) (p : Hook → Bool)
    (hp : ∀ h : PlacedHook, p h.record ↔ kind h.repo h.hook) :
    ∃ place, (hooks doc).find? p = some (PlacedHook.record ⟨place,repo,hook⟩) := by
  obtain ⟨place,hat,hkind,hfirst⟩ := h
  have hfind : (placedHooks doc).find? (p ∘ PlacedHook.record) = some ⟨place,repo,hook⟩ :=
    find?_eq_some_of_first (pairwise_placedHooks doc) (mem_placedHooks.mpr hat)
      ((hp ⟨place,repo,hook⟩).mpr hkind) fun b hb hpb =>
        hfirst b.place b.repo b.hook (mem_placedHooks.mp hb) ((hp b).mp hpb)
  refine ⟨place,?_⟩
  rw [hooks_eq, List.find?_map, hfind, Option.map_some]

theorem NoHook.find? (h : NoHook doc kind) (p : Hook → Bool)
    (hp : ∀ h : PlacedHook, p h.record ↔ kind h.repo h.hook) : (hooks doc).find? p = none := by
  rw [hooks_eq, List.find?_map, Option.map_eq_none_iff, List.find?_eq_none]
  exact fun b hb hpb => h b.place b.repo b.hook (mem_placedHooks.mp hb) ((hp b).mp hpb)

theorem hookOf?_of_hasId (h : FirstHook doc (HasId tool) repo hook) :
    ∃ place, hookOf? (hooks doc) tool = some (PlacedHook.record ⟨place,repo,hook⟩) := by
  obtain ⟨place,hfind⟩ := h.find? (·.id == some tool) fun _ => record_hasId
  exact ⟨place,by rw [hookOf?, hfind]⟩

theorem hookOf?_of_noHook (hno : NoHook doc (HasId tool)) : hookOf? (hooks doc) tool =
    (hooks doc).find? (Hook.isNamedAfter tool) := by
  rw [hookOf?, hno.find? (·.id == some tool) fun _ => record_hasId]
  rfl

def hookSettings (repo hook : Entries Json) : Settings :=
  (((hook.find? "args").bind Json.array?).map fun a => ("pre-commit.args",.array a)).toList ++
  (((hook.find? "id").bind Json.string?).map fun s => ("pre-commit.hook",.string s)).toList ++
  (((repo.find? "rev").bind Json.string?).map fun s => ("pre-commit.rev",.string s)).toList

theorem flatten_toJson (h : Hook) : Settings.flatten h.toJson =
    (h.args.map fun a => ("pre-commit.args",.array a)).toList ++
    (h.id.map fun s => ("pre-commit.hook",.string s)).toList ++
    (h.rev.map fun s => ("pre-commit.rev",.string s)).toList := by
  have hhook : Settings.dottedKey ["pre-commit","hook"] = "pre-commit.hook" := by decide
  have hrev : Settings.dottedKey ["pre-commit","rev"] = "pre-commit.rev" := by decide
  have hargs : Settings.dottedKey ["pre-commit","args"] = "pre-commit.args" := by decide
  have hfields : "args" < "hook" ∧ "args" < "rev" ∧ ¬ "rev" < "hook" := by decide
  have hkeys : ¬ "pre-commit.hook" < "pre-commit.args" ∧ ¬ "pre-commit.rev" < "pre-commit.args" ∧
      ¬ "pre-commit.rev" < "pre-commit.hook" := by decide
  obtain ⟨url,rev,id,args⟩ := h
  cases rev <;> cases id <;> cases args <;>
    simp [Hook.toJson, Json.ofFields, Entries.ofList, Entries.insert, Settings.flatten,
      Settings.fieldLeaves, Settings.leaves, Settings.ofLeaves, hhook, hrev, hargs, hfields, hkeys]

theorem flatten_record (h : PlacedHook) :
    Settings.flatten h.record.toJson = hookSettings h.repo h.hook := flatten_toJson _

theorem hookSettings_id (h : HasId tool repo hook) :
    (hookSettings repo hook).find? "pre-commit.hook" = some (.string tool) := by
  have hne : "pre-commit.hook" ≠ "pre-commit.args" := by decide
  rw [hookSettings, h]
  cases (hook.find? "args").bind Json.array? <;> simp [Json.string?, Entries.find?, hne]

structure SaysNothing (repo hook : Entries Json) : Prop where
  id : ∀ s, hook.find? "id" ≠ some (.string s)
  rev : ∀ s, repo.find? "rev" ≠ some (.string s)
  args : ∀ items, hook.find? "args" ≠ some (.array items)

theorem hookSettings_eq_nil_iff : hookSettings repo hook = [] ↔ SaysNothing repo hook := by
  have hargs : (hook.find? "args").bind Json.array? = none ↔
      ∀ items, hook.find? "args" ≠ some (.array items) := by
    simp [Option.eq_none_iff_forall_ne_some, Option.bind_eq_some_iff, array?_eq_some_iff]
  have htext : ∀ k (fields : Entries Json), (fields.find? k).bind Json.string? = none ↔
      ∀ s, fields.find? k ≠ some (.string s) := by
    simp [Option.eq_none_iff_forall_ne_some, Option.bind_eq_some_iff, string?_eq_some_iff]
  simp only [hookSettings, List.append_eq_nil_iff, Option.toList_eq_nil_iff, Option.map_eq_none_iff,
    hargs, htext]
  exact ⟨fun h => ⟨h.1.2,h.2,h.1.1⟩,fun h => ⟨⟨h.args,h.id⟩,h.rev⟩⟩

theorem IsHookFile.settingsOf_eq {f : DetectedFile} (h : f.IsHookFile) (hparsed : f.isParsed)
    (tool : String) : f.settingsOf tool =
      ((hookOf? (hooks f.content) tool).map fun h => Settings.flatten h.toJson).getD [] := by
  have hfailure : f.failure = none := Option.isNone_iff_eq_none.mp hparsed
  rw [settingsOf, hfailure]
  cases hdoc : f.content with
  | object fields =>
    simp only
    rw [h.nestedBlock]
    cases hookOf? (hooks (.object fields)) tool <;> rfl
  | _ => rfl

theorem IsHookFile.settingsOf_of_hook {f : DetectedFile} (h : f.IsHookFile)
    (hparsed : f.isParsed) {place : Nat ×ₗ Nat}
    (hhook : hookOf? (hooks f.content) tool = some (PlacedHook.record ⟨place,repo,hook⟩)) :
    f.settingsOf tool = hookSettings repo hook := by
  rw [h.settingsOf_eq hparsed, hhook]
  exact flatten_record _

/-- The only hook with the name of a tool gives the tool its settings, with its own repository and
nothing else of the file. Without such a hook the first does that is named after the tool, by its
identifier or by its repository, and there is a first one if there is any; there are no settings
when it says nothing, and when there is none. -/
theorem settings_from_one_hook {f : DetectedFile} (hf : f.IsHookFile) (hparsed : f.isParsed)
    (ht : tool ∈ knownTools) :
    (∀ repo hook, OnlyHook f.content (HasId tool) repo hook →
      f.toolBlocks.find? tool = some (hookSettings repo hook) ∧
        (hookSettings repo hook).find? "pre-commit.hook" = some (.string tool)) ∧
    (NoHook f.content (HasId tool) →
      (∀ repo hook, FirstHook f.content (NamedAfter tool) repo hook →
        (¬ SaysNothing repo hook → f.toolBlocks.find? tool = some (hookSettings repo hook)) ∧
        (SaysNothing repo hook → f.toolBlocks.find? tool = none)) ∧
      (NoHook f.content (NamedAfter tool) → f.toolBlocks.find? tool = none) ∧
      (NoHook f.content (NamedAfter tool) ∨
        ∃ repo hook, FirstHook f.content (NamedAfter tool) repo hook)) := by
  have hne : tool ≠ "" := (by decide : ∀ t ∈ knownTools, t ≠ "") tool ht
  refine ⟨fun repo hook honly => ?_,fun hno => ⟨fun repo hook hfirst => ?_,
    fun hnone => ?_,noHook_or_first f.content (NamedAfter tool)⟩⟩
  · obtain ⟨_,hhook⟩ := hookOf?_of_hasId honly.first
    obtain ⟨_,_,hid,_⟩ := honly
    have hsettings := hf.settingsOf_of_hook hparsed hhook
    have hsays : hookSettings repo hook ≠ [] := fun hnil =>
      (hookSettings_eq_nil_iff.mp hnil).id tool hid
    rw [← hsettings] at hsays
    exact ⟨by rw [find?_toolBlocks ht hsays, hsettings],hookSettings_id hid⟩
  · obtain ⟨_,hhook⟩ := hfirst.find? (Hook.isNamedAfter tool) fun _ => record_namedAfter hne
    rw [← hookOf?_of_noHook hno] at hhook
    have hsettings := hf.settingsOf_of_hook hparsed hhook
    rw [← hookSettings_eq_nil_iff, ← hsettings]
    exact ⟨find?_toolBlocks ht,find?_toolBlocks_eq_none⟩
  · have hhook := hnone.find? (Hook.isNamedAfter tool) fun _ => record_namedAfter hne
    rw [← hookOf?_of_noHook hno] at hhook
    refine find?_toolBlocks_eq_none ?_
    rw [hf.settingsOf_eq hparsed, hhook]
    rfl

def ruffFile : DetectedFile :=
  { hookFile with content := .object [("repos",.array [
      .object [("hooks",.array [.object [("id",.string "ruff-format")]]),
        ("repo",.string "https://github.com/astral-sh/ruff-pre-commit"),("rev",.string "v0.4.4")],
      .null,
      .object [("hooks",.array [.null,
        .object [("args",.array [.string "--fix"]),("id",.string "ruff")]]),
        ("repo",.string "local")]])] }

theorem onlyHook_ruffFile : ∃ repo hook, OnlyHook ruffFile.content (HasId "ruff") repo hook ∧
    hookSettings repo hook =
      [("pre-commit.args",.array [.string "--fix"]),("pre-commit.hook",.string "ruff")] := by
  have hplaces : ∀ h ∈ placedHooks ruffFile.content,
      h.hook.find? "id" = some (.string "ruff") → h.place = toLex (2,1) := by
    decide
  refine ⟨_,_,⟨toLex (2,1),⟨⟨_,rfl,rfl⟩,⟨_,rfl,rfl⟩⟩,rfl,fun place repo hook hat hid => ?_⟩,rfl⟩
  exact hplaces ⟨place,repo,hook⟩ (mem_placedHooks.mpr hat) hid

theorem settings_from_one_hook_ruff : ruffFile.IsHookFile ∧ ruffFile.isParsed ∧
    "ruff" ∈ knownTools ∧ ruffFile.toolBlocks.find? "ruff" =
      some [("pre-commit.args",.array [.string "--fix"]),("pre-commit.hook",.string "ruff")] := by
  have hfile : ruffFile.IsHookFile := ⟨isHookFile_hookFile.listed,isHookFile_hookFile.named⟩
  have hknown : "ruff" ∈ knownTools := by decide
  obtain ⟨repo,hook,honly,hsettings⟩ := onlyHook_ruffFile
  refine ⟨hfile,rfl,hknown,?_⟩
  rw [((settings_from_one_hook hfile rfl hknown).1 repo hook honly).1, hsettings]

end DetectedFile
end Workbench

import Workbench.Proofs.Arrangement
import Workbench.Proofs.Inspection
set_option autoImplicit false

namespace Workbench

namespace Json

def Lists (doc : Json) (path : List String) (text : String) : Prop :=
  ∃ items, doc.at? path = some (.array items) ∧ .string text ∈ items

def Names (doc : Json) (path : List String) (requirement : String) : Prop :=
  ∃ fields name spec, doc.at? path = some (.object fields) ∧ (name, spec) ∈ fields ∧
    name ≠ "python" ∧ DetectedFile.namedSpec name spec = requirement

theorem mem_strings_at? {doc : Json} {path : List String} {text : String} :
    text ∈ DetectedFile.strings (doc.at? path) ↔ doc.Lists path text := by
  have hstring : ∀ v : Json, v.string? = some text ↔ v = .string text := by
    intro v
    cases v <;> simp [string?]
  cases hv : doc.at? path with
  | none => simp [DetectedFile.strings, Lists, hv]
  | some v => cases v <;> simp [DetectedFile.strings, Lists, hv, array?, hstring]

theorem mem_namedSpecs_at? {doc : Json} {path : List String} {requirement : String} :
    requirement ∈ DetectedFile.namedSpecs (doc.at? path) ↔ doc.Names path requirement := by
  cases hv : doc.at? path with
  | none => simp [DetectedFile.namedSpecs, Names, hv]
  | some v => cases v <;> simp [DetectedFile.namedSpecs, Names, hv, and_assoc]

end Json

/-- Where files of a kind list requirements. -/
def CatalogEntry.listPlaces (e : CatalogEntry) : List (List String) :=
  match e.dialect with
  | .requirements => [["requirements"]]
  | .setupScript => [["install_requires"]]
  | .toml => if e.pattern = "pyproject.toml" then [["project", "dependencies"]] else []
  | _ => []

/-- Where files of a kind have tables of packages. -/
def CatalogEntry.tablePlaces (e : CatalogEntry) : List (List String) :=
  match e.dialect with
  | .toml =>
    if e.pattern = "pyproject.toml" then [["tool", "poetry", "dependencies"]]
    else if e.pattern = "Pipfile" then [["packages"], ["dev-packages"]]
    else []
  | _ => []

namespace DetectedFile

variable {f : DetectedFile}

/-- A requirement in a place where files of this kind have them. -/
inductive Declares (f : DetectedFile) (requirement : String) : Prop where
  | listed {path : List String} :
    path ∈ f.entry.listPlaces → f.content.Lists path requirement → f.Declares requirement
  | named {path : List String} :
    path ∈ f.entry.tablePlaces → f.content.Names path requirement → f.Declares requirement

theorem dependencies_eq (h : f.isParsed) :
    f.dependencies = f.entry.listPlaces.flatMap (fun path => strings (f.content.at? path)) ++
      f.entry.tablePlaces.flatMap fun path => namedSpecs (f.content.at? path) := by
  have hfield : ∀ k, f.content.field? k = f.content.at? [k] := fun k => by simp [Json.at?]
  simp only [dependencies, h, Bool.not_true, Bool.false_eq_true, if_false,
    CatalogEntry.listPlaces, CatalogEntry.tablePlaces, hfield]
  cases f.entry.dialect with
  | toml => split_ifs <;> simp
  | _ => simp

theorem dependencies_of_failed (h : f.isParsed = false) : f.dependencies = [] := by
  simp [dependencies, h]

theorem mem_dependencies_iff (h : f.isParsed) {requirement : String} :
    requirement ∈ f.dependencies ↔ f.Declares requirement := by
  rw [dependencies_eq h, List.mem_append, List.mem_flatMap, List.mem_flatMap]
  simp only [Json.mem_strings_at?, Json.mem_namedSpecs_at?]
  constructor
  · rintro (⟨_,hplace,hlists⟩ | ⟨_,hplace,hnames⟩)
    · exact .listed hplace hlists
    · exact .named hplace hnames
  · rintro (⟨hplace,hlists⟩ | ⟨hplace,hnames⟩)
    · exact Or.inl ⟨_,hplace,hlists⟩
    · exact Or.inr ⟨_,hplace,hnames⟩

end DetectedFile

section EraseDups

variable {α : Type} [DecidableEq α]

theorem eraseDups_concat (xs : List α) (x : α) :
    (xs ++ [x]).eraseDups = if x ∈ xs then xs.eraseDups else xs.eraseDups ++ [x] := by
  rw [List.eraseDups_append]
  by_cases hx : x ∈ xs <;> simp [List.removeAll, hx, List.eraseDups_cons]

theorem pairwise_idxOf_eraseDups (xs : List α) :
    xs.eraseDups.Pairwise fun a b => xs.idxOf a < xs.idxOf b := by
  induction xs using List.reverseRecOn with
  | nil => exact List.Pairwise.nil
  | append_singleton xs x ih =>
    have hfirst : ∀ a ∈ xs.eraseDups, (xs ++ [x]).idxOf a = xs.idxOf a := fun a ha =>
      List.idxOf_append_of_mem (List.mem_eraseDups.mp ha)
    have hold : xs.eraseDups.Pairwise fun a b => (xs ++ [x]).idxOf a < (xs ++ [x]).idxOf b := by
      refine ih.imp_of_mem fun ha hb hlt => ?_
      rw [hfirst _ ha, hfirst _ hb]
      exact hlt
    rw [eraseDups_concat]
    split_ifs with hx
    · exact hold
    · refine List.pairwise_append.mpr ⟨hold,List.pairwise_singleton _ _,fun a ha b hb => ?_⟩
      rw [List.mem_singleton.mp hb, hfirst a ha, List.idxOf_append_of_notMem hx]
      exact Nat.lt_add_right _ (List.idxOf_lt_length_iff.mpr (List.mem_eraseDups.mp ha))

end EraseDups

namespace MergedConfig

theorem foldl_addNew (xs : List String) : xs.foldl addNew [] = xs.eraseDups := by
  induction xs using List.reverseRecOn with
  | nil => rfl
  | append_singleton xs x ih =>
    rw [List.foldl_append, ih, eraseDups_concat]
    simp [addNew, List.mem_eraseDups]

/-- The requirements that the parsed files of a list declare, by path, with repetitions. -/
def declared (files : List DetectedFile) : List String :=
  ((byPath files).filter DetectedFile.isParsed).flatMap DetectedFile.dependencies

theorem mem_declared_iff {files : List DetectedFile} {requirement : String} :
    requirement ∈ declared files ↔ ∃ f ∈ files, f.isParsed ∧ f.Declares requirement := by
  simp only [declared, byPath, List.mem_flatMap, List.mem_filter, List.mem_mergeSort, and_assoc]
  refine exists_congr fun f => and_congr_right fun _ => and_congr_right fun hparsed => ?_
  exact DetectedFile.mem_dependencies_iff hparsed

theorem flatMap_dependencies (fs : List DetectedFile) :
    fs.flatMap DetectedFile.dependencies =
      (fs.filter DetectedFile.isParsed).flatMap DetectedFile.dependencies := by
  induction fs with
  | nil => rfl
  | cons f fs ih =>
    cases hparsed : f.isParsed <;> simp [hparsed, ih, DetectedFile.dependencies_of_failed]

theorem merge_dependencies (files : List DetectedFile) :
    (merge files).dependencies = (declared files).eraseDups := by
  rw [declared, ← flatMap_dependencies, ← foldl_addNew, merge_eq]
  rfl

/-- The dependencies of a workspace are what its parsed files declare, the files by path and of one
path by pattern: each requirement stands once, where it first comes up, and each that a file
declares is there. -/
theorem dependencies_listed_once (files : List DetectedFile) :
    (∀ fs, Arranged pathKey files fs ↔ fs = byPath files) ∧
    (merge files).dependencies =
      (((byPath files).filter DetectedFile.isParsed).flatMap DetectedFile.dependencies).eraseDups ∧
    (merge files).dependencies.Nodup ∧
    ((merge files).dependencies.Pairwise fun a b =>
      (declared files).idxOf a < (declared files).idxOf b) ∧
    ∀ requirement, requirement ∈ (merge files).dependencies ↔
      ∃ f ∈ files, f.isParsed ∧ f.Declares requirement := by
  have hfirst := pairwise_idxOf_eraseDups (declared files)
  rw [merge_dependencies]
  refine ⟨fun _ => arranged_byPath_iff,rfl,?_,hfirst,fun requirement => ?_⟩
  · refine hfirst.imp ?_
    rintro a b hlt rfl
    exact lt_irrefl _ hlt
  · rw [List.mem_eraseDups, mem_declared_iff]

end MergedConfig
end Workbench

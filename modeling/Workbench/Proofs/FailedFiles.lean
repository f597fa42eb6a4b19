import Mathlib.Data.List.Forall2
import Workbench.Proofs.Declarations
set_option autoImplicit false

namespace Workbench

structure SourceRecord.Describes (r : SourceRecord) (f : DetectedFile) : Prop where
  path_eq : r.path = f.path
  entry_eq : r.entry = f.entry
  digest_eq : r.digest = f.digest
  parsed_iff : r.parsed ↔ f.failure = none

structure ParseFailure.Explains (e : ParseFailure) (f : DetectedFile) : Prop where
  file_eq : e.file = f.path
  reason_eq : ∃ error, f.failure = some error ∧ e.reason = error.message

theorem SourceRecord.describes_ofFile (f : DetectedFile) : (ofFile f).Describes f :=
  ⟨rfl,rfl,rfl,Option.isNone_iff_eq_none⟩

theorem ParseFailure.explains_filterMap (fs : List DetectedFile) :
    List.Forall₂ Explains (fs.filterMap DetectedFile.parseFailure?)
      (fs.filter fun f => !f.isParsed) := by
  induction fs with
  | nil => exact .nil
  | cons f fs ih =>
    cases hf : f.failure with
    | none => simpa [DetectedFile.parseFailure?, DetectedFile.isParsed, hf] using ih
    | some error =>
      have hfirst : Explains ⟨f.path, error.message⟩ f := ⟨rfl,error,hf,rfl⟩
      have hfailed : f.isParsed = false := by simp [DetectedFile.isParsed, hf]
      have hfailure : f.parseFailure? = some ⟨f.path, error.message⟩ := by
        simp [DetectedFile.parseFailure?, hf]
      simpa [hfailed, hfailure] using List.Forall₂.cons hfirst ih

namespace MergedConfig

theorem layers_filter_parsed (files : List DetectedFile) :
    layers (files.filter DetectedFile.isParsed) = layers files := by
  rw [layers, ← filter_byPath, List.filter_filter, layers]
  simp

theorem declared_filter_parsed (files : List DetectedFile) :
    declared (files.filter DetectedFile.isParsed) = declared files := by
  rw [declared, ← filter_byPath, List.filter_filter, declared]
  simp

/-- Of a list with failed files a merge makes what it makes of the parsed files alone. Beside that
it has one record for each file, which says whether it was parsed, and one failure for each failed
file and no other, both by path and of one path by pattern. -/
theorem failed_files_set_apart (files : List DetectedFile) :
    (merge files).categories = (merge (files.filter DetectedFile.isParsed)).categories ∧
    (merge files).dependencies = (merge (files.filter DetectedFile.isParsed)).dependencies ∧
    (merge files).mergeOrder = (merge (files.filter DetectedFile.isParsed)).mergeOrder ∧
    (∃ fs, Arranged pathKey files fs ∧
      List.Forall₂ SourceRecord.Describes (merge files).sources fs) ∧
    ∃ failed, Arranged pathKey (files.filter fun f => !f.isParsed) failed ∧
      List.Forall₂ ParseFailure.Explains (merge files).failures failed := by
  obtain ⟨hsources,hfailures⟩ := merge_files files
  refine ⟨?_,?_,?_,⟨byPath files,arranged_byPath_iff.mpr rfl,?_⟩,
    ⟨_,arranged_byPath_iff.mpr rfl,?_⟩⟩
  · rw [merge_eq, merge_eq, layers_filter_parsed]
    rfl
  · rw [merge_dependencies, merge_dependencies, declared_filter_parsed]
  · rw [merge_mergeOrder, merge_mergeOrder, layers_filter_parsed]
  · rw [hsources, List.forall₂_map_left_iff]
    exact List.forall₂_same.mpr fun f _ => SourceRecord.describes_ofFile f
  · rw [hfailures, ← filter_byPath]
    exact ParseFailure.explains_filterMap (byPath files)

end MergedConfig
end Workbench

import Workbench.Proofs.Entries
import Workbench.Proofs.Patterns
import Workbench.Proofs.Sorting
import Workbench.Proofs.Walk
set_option autoImplicit false

namespace Workbench.Locator
open FileTree

/-- A file is to be found below a root under an entry of the catalog. -/
structure Locates (t : FileTree) (root : List String) (maxDepth : Nat) (extra : List String)
    (names : List String) (e : CatalogEntry) : Prop where
  ne_nil : names ≠ []
  length_le : names.length ≤ maxDepth
  file : t.IsFileAt (root ++ names)
  searched : ∀ above below, names = above ++ below → above ≠ [] → below ≠ [] →
    ¬ ExcludeRules.Excludes extra above
  known : e ∈ Catalog.entries
  fits : e.Fits (Text.joined "/" names)

variable {t : FileTree} {l : Locator} {root : List String} {maxDepth : Nat} {extra : List String}

theorem named_of_isFileAt (ht : t.WellFormed) {names : List String}
    (h : t.IsFileAt (root ++ names)) : ∀ n ∈ names, Path.IsName n :=
  fun n hn => named_of_entry ht (isSome_of_isFileAt h) n (List.mem_append_right _ hn)

theorem locates_iff (hl : make maxDepth extra = .ok l) (ht : t.WellFormed) {names : List String}
    {e : CatalogEntry} :
    Reaches t l root l.maxDepth [] names ∧ e ∈ l.matching (Text.joined "/" names) ↔
      Locates t root maxDepth extra names e := by
  obtain ⟨rfl,hpatterns,hrules⟩ := make_eq_ok_iff.mp hl
  have hexcluded : ∀ above below, names = above ++ below → above ≠ [] →
      t.IsFileAt (root ++ names) →
      (l.excludes.isExcluded (Text.joined "/" above) ↔ ExcludeRules.Excludes extra above) := by
    intro above below he ha hfile
    refine ExcludeRules.isExcluded_iff hrules (fun n hn => ?_) ha
    exact named_of_isFileAt ht hfile n (he ▸ List.mem_append_left _ hn)
  rw [mem_matching hpatterns]
  constructor
  · rintro ⟨h,hknown,hfits⟩
    have hfile : t.IsFileAt (root ++ names) := by simpa using h.file
    refine ⟨h.ne_nil,h.length_le,hfile,?_,hknown,hfits⟩
    intro above below he ha hb
    rw [← hexcluded above below he ha hfile, Bool.not_eq_true]
    simpa using h.searched above below he ha hb
  · intro h
    refine ⟨⟨h.ne_nil,h.length_le,by simpa using h.file,?_⟩,h.known,h.fits⟩
    intro above below he ha hb
    rw [List.nil_append, ← Bool.not_eq_true, hexcluded above below he ha h.file]
    exact h.searched above below he ha hb

theorem mem_locateIn (hl : make maxDepth extra = .ok l) (ht : t.WellFormed)
    (hlinks : t.NoLinksBelow root) (hroot : t.isDirectoryAt root) {f : LocatedFile} :
    f ∈ l.locateIn t root ↔ ∃ names e, f = ⟨root ++ names, Text.joined "/" names, e⟩ ∧
      Locates t root maxDepth extra names e := by
  simp only [mem_locateIn_iff, (nodup_walk_and_mem ht hlinks hroot).2, ← locates_iff hl ht]
  constructor
  · rintro ⟨names,hreach,e,he,rfl⟩
    exact ⟨names,e,rfl,hreach,he⟩
  · rintro ⟨names,e,rfl,hreach,he⟩
    exact ⟨names,hreach,e,he,rfl⟩

theorem nodup_locateIn (hl : make maxDepth extra = .ok l) (hwalk : (l.walk t root).Nodup) :
    (l.locateIn t root).Nodup := by
  have hpatterns := (make_eq_ok_iff.mp hl).2.1
  rw [locateIn, (List.mergeSort_perm _ _).nodup_iff, List.nodup_flatMap]
  constructor
  · intro names _
    refine (nodup_matching hpatterns _).map fun d e hde => ?_
    exact (LocatedFile.mk.inj hde).2.2
  · refine hwalk.imp fun hne f hf hf' => ?_
    obtain ⟨d,_,rfl⟩ := List.mem_map.mp hf
    obtain ⟨e,_,heq⟩ := List.mem_map.mp hf'
    exact hne (List.append_cancel_left (LocatedFile.mk.inj heq).1).symm

/-- By path, then by pattern. -/
def Ascends (a b : LocatedFile) : Prop :=
  a.relative < b.relative ∨ a.relative = b.relative ∧ a.entry.pattern < b.entry.pattern

def fileKey (f : LocatedFile) : String ×ₗ String := toLex (f.relative, f.entry.pattern)

theorem fileLe_comparesBy : ComparesBy fileLe fileKey := by
  intro a b
  simp [fileLe, fileKey, Prod.Lex.toLex_le_toLex]

theorem ascends_iff {a b : LocatedFile} : Ascends a b ↔ fileKey a < fileKey b := by
  rw [fileKey, fileKey, Prod.Lex.toLex_lt_toLex, Ascends]

theorem ascends_locateIn (hl : make maxDepth extra = .ok l) (hwalk : (l.walk t root).Nodup)
    (hnames : ∀ names ∈ l.walk t root, names ≠ [] ∧ ∀ n ∈ names, Path.IsName n) :
    (l.locateIn t root).Pairwise Ascends := by
  have hpatterns := (make_eq_ok_iff.mp hl).2.1
  have hsorted : (l.locateIn t root).Pairwise fun a b => fileKey a ≤ fileKey b :=
    fileLe_comparesBy.pairwise_mergeSort _
  refine (hsorted.and (nodup_locateIn hl hwalk)).imp_of_mem ?_
  intro a b ha hb ⟨hle,hne⟩
  refine ascends_iff.mpr (lt_of_le_of_ne hle fun hsame => hne ?_)
  obtain ⟨ns,hns,d,hd,rfl⟩ := mem_locateIn_iff.mp ha
  obtain ⟨ms,hms,e,he,rfl⟩ := mem_locateIn_iff.mp hb
  -- names hold no separator, so a path has one reading, and no two entries share a pattern
  obtain ⟨hpath,hpattern⟩ := Prod.mk.inj (toLex_inj.mp hsame)
  have hnames := Path.joined_inj (hnames ns hns).1 (hnames ms hms).1 (hnames ns hns).2
    (hnames ms hms).2 hpath
  have hknown := ((mem_matching hpatterns).mp hd).1
  have hknown' := ((mem_matching hpatterns).mp he).1
  rw [hnames, Catalog.eq_of_pattern hknown hknown' hpattern]

theorem ascends_locateIn_of_noLinks (hl : make maxDepth extra = .ok l) (ht : t.WellFormed)
    (hlinks : t.NoLinksBelow root) (hroot : t.isDirectoryAt root) :
    (l.locateIn t root).Pairwise Ascends := by
  obtain ⟨hnodup,hmem⟩ := nodup_walk_and_mem (l := l) ht hlinks hroot
  refine ascends_locateIn hl hnodup fun names hnames => ?_
  have hreach := (hmem names).mp hnames
  exact ⟨hreach.ne_nil,named_of_isFileAt ht (by simpa using hreach.file)⟩

theorem find?_presence (files : List LocatedFile) (k : String) (found : Bool) :
    Entries.find? k (Entries.ofList (Catalog.entries.map fun e =>
        (e.pattern, files.any fun f => f.entry.pattern == e.pattern))) = some found ↔
      (∃ e ∈ Catalog.entries, e.pattern = k) ∧
        (found = true ↔ ∃ f ∈ files, f.entry.pattern = k) := by
  rw [Entries.find?_ofList_map CatalogEntry.pattern fun p => files.any fun f => f.entry.pattern == p]
  refine and_congr_right fun _ => ?_
  have hany : files.any (fun f => f.entry.pattern == k) ↔ ∃ f ∈ files, f.entry.pattern = k := by
    simp
  rw [← hany, Bool.coe_iff_coe]
  exact eq_comm

/-- A search answers the files that are to be found and no others, each once and in order, and a
check goes by that answer. -/
theorem located_exactly (ht : t.WellFormed) {cwd : List String} {path : String}
    (hpath : t.resolve cwd path = .ok root) (hroot : t.isDirectoryAt root)
    (hlinks : t.NoLinksBelow root) (maxDepth : Nat) (hextra : ExcludeRules.Valid extra) :
    ∃ l files present, make maxDepth extra = .ok l ∧ l.locate t cwd path = .ok files ∧
      l.check t cwd path = .ok present ∧
      (∀ f, f ∈ files ↔ ∃ names e, f = ⟨root ++ names, Text.joined "/" names, e⟩ ∧
        Locates t root maxDepth extra names e) ∧
      files.Pairwise Ascends ∧ present.Ordered ∧
      ∀ k found, Entries.find? k present = some found ↔
        (∃ e ∈ Catalog.entries, e.pattern = k) ∧
          (found = true ↔ ∃ f ∈ files, f.entry.pattern = k) := by
  obtain ⟨l,hl⟩ := exists_make maxDepth hextra
  have hlocate : l.locate t cwd path = .ok (l.locateIn t root) := by
    simp [locate, validateRoot, hpath, hroot, Except.map]
  have hcheck := congrArg (Except.map fun files : List LocatedFile =>
    Entries.ofList (Catalog.entries.map fun e =>
      (e.pattern, files.any fun f => f.entry.pattern == e.pattern))) hlocate
  exact ⟨l,_,_,hl,hlocate,hcheck,fun _ => mem_locateIn hl ht hlinks hroot,
    ascends_locateIn_of_noLinks hl ht hlinks hroot,Entries.ordered_ofList _,find?_presence _⟩

def workspace : FileTree :=
  ⟨[(["w"], .directory), (["w", "tox.ini"], .file [] false), (["w", "docs"], .directory),
    (["w", "docs", "conf.py"], .file [] false)]⟩

theorem located_exactly_workspace :
    workspace.WellFormed ∧ workspace.resolve ["w"] "." = .ok ["w"] ∧
      workspace.isDirectoryAt ["w"] ∧ workspace.NoLinksBelow ["w"] ∧
      ExcludeRules.Valid ["docs/"] ∧
      ∃ l files present, make 3 ["docs/"] = .ok l ∧ l.locate workspace ["w"] "." = .ok files ∧
        l.check workspace ["w"] "." = .ok present ∧ (∃ f ∈ files, f.relative = "tox.ini") ∧
        Entries.find? "tox.ini" present = some true := by
  have hwell : workspace.WellFormed := by decide +kernel
  have hroot : workspace.isDirectoryAt ["w"] := by decide +kernel
  have hpath : workspace.resolve ["w"] "." = .ok ["w"] := by
    have hpieces : Path.pieces "." = ["."] := by decide
    simp [resolve, hpieces, follow, hroot, Path.isAbsolute]
  have hlinks : workspace.NoLinksBelow ["w"] :=
    noLinksBelow_of_entries (by simp [workspace]) ["w"]
  have hextra : ExcludeRules.Valid ["docs/"] := by decide +kernel
  obtain ⟨l,files,present,hl,hfiles,hpresent,hmem,_,_,hfind⟩ :=
    located_exactly hwell hpath hroot hlinks 3 hextra
  let e : CatalogEntry := ⟨"tox.ini", .ini, .legacy, [.lint, .test], none⟩
  have hfound : ⟨["w", "tox.ini"], "tox.ini", e⟩ ∈ files := by
    refine (hmem _).mpr ⟨["tox.ini"],e,rfl,by simp,by decide,?_,?_,?_,?_⟩
    · exact ⟨.file [] false,by decide +kernel,by simp⟩
    · intro above below he ha hb
      rcases List.append_eq_singleton_iff.mp he.symm with ⟨hnil,_⟩ | ⟨_,hnil⟩
      · exact absurd hnil ha
      · exact absurd hnil hb
    · decide +kernel
    · decide +kernel
  refine ⟨hwell,hpath,hroot,hlinks,hextra,l,files,present,hl,hfiles,hpresent,⟨_,hfound,rfl⟩,?_⟩
  exact (hfind "tox.ini" true).mpr ⟨⟨e,by decide +kernel,rfl⟩,by simpa using ⟨_,hfound,rfl⟩⟩

end Workbench.Locator

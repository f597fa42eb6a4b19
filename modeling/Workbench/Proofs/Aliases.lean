import Workbench.Proofs.Exploration
import Workbench.Proofs.Patterns
import Workbench.Proofs.TreeGrowth
set_option autoImplicit false

/-! What one more symbolic link does to a search. A link can give a directory a second path, and a
search enters a directory under the first of its paths alone. So a file that was found is found
still, unless with the link an earlier path leads to one of the directories above the file. -/

namespace Workbench.Locator
open FileTree

/-- Where names lead, one after the other. -/
def leadsTo (t : FileTree) (root names : List String) : Except PathError (List String) :=
  names.foldlM (fun place n => t.follow maxLinks place [n]) root

/-- A search enters a directory above a file by an earlier path than that of the file. -/
def Shadowed (t : FileTree) (root : List String) (visits : List Visit) (names : List String) :
    Prop :=
  ∃ above below, names = above ++ below ∧ above ≠ [] ∧ below ≠ [] ∧
    ∃ v ∈ visits, leadsTo t root above = .ok v.place ∧ v.path < above

variable {t : FileTree} {l : Locator} {p root : List String} {target : String}

theorem leadsTo_snoc {names place : List String} (h : leadsTo t root names = .ok place)
    (n : String) : leadsTo t root (names ++ [n]) = t.follow maxLinks place [n] := by
  unfold leadsTo at h ⊢
  rw [List.foldlM_append, h]
  cases hn : t.follow maxLinks place [n] <;> simp [bind, Except.bind, pure, Except.pure, hn]

theorem Enters.leadsTo_eq {visits : List Visit} (h : Enters t l root visits) {v : Visit}
    (hv : v ∈ visits) : leadsTo t root v.path = .ok v.place := by
  refine h.induction (P := fun v => leadsTo t root v.path = .ok v.place) rfl ?_ hv
  intro u _ n v _ hopen ih
  rw [hopen.path_eq, leadsTo_snoc ih n]
  exact hopen.follow_eq

theorem Opens.put (hnew : t.entryAt? p = none) {u v : Visit} {n : String} (h : Opens t l u n v) :
    Opens (t.put p (.link target)) l u n v :=
  ⟨mem_names_put hnew h.mem,h.path_eq,follow_put hnew h.follow_eq,
    by rw [isDirectoryAt_put hnew, h.directory],h.allowed⟩

theorem Holds.put (hnew : t.entryAt? p = none) {u : Visit} {n : String} {names : List String}
    (h : Holds t u n names) : Holds (t.put p (.link target)) u n names := by
  obtain ⟨q,hfollow,hfile⟩ := h.leads
  exact ⟨mem_names_put hnew h.mem,h.path_eq,q,follow_put hnew hfollow,
    by rw [isDirectoryAt_put hnew, hfile]⟩

/-- A directory that was entered is entered still by the same path, unless that path or one above it
comes too late. The first path on the way down that is not entered is one that opens a directory
entered before. -/
theorem mem_or_shadowed (hnew : t.entryAt? p = none) {visits visits' : List Visit}
    (h : Enters t l root visits) (h' : Enters (t.put p (.link target)) l root visits') {v : Visit}
    (hv : v ∈ visits) (n : String) :
    v ∈ visits' ∨ Shadowed (t.put p (.link target)) root visits' (v.path ++ [n]) := by
  refine h.induction (P := fun v => ∀ n, v ∈ visits' ∨
    Shadowed (t.put p (.link target)) root visits' (v.path ++ [n])) ?_ ?_ hv n
  · exact fun _ => Or.inl h'.root_mem
  · intro u _ m v hv hopen ih n
    rcases ih m with hu' | ⟨above,below,heq,habove,_,hearlier⟩
    · have hopen' : Opens (t.put p (.link target)) l u m v := hopen.put hnew
      by_cases hfirst : ∀ b ∈ visits', b.place = v.place → ¬ b.path < v.path
      · exact Or.inl ((h'.mem_iff v).mpr (Or.inr ⟨⟨u,hu',m,hopen'⟩,h.length_le hv,hfirst⟩))
      · push Not at hfirst
        obtain ⟨b,hb,hplace,hpath⟩ := hfirst
        refine Or.inr ⟨v.path,[n],rfl,by simp [hopen.path_eq],by simp,b,hb,?_,hpath⟩
        rw [hopen.path_eq, leadsTo_snoc (h'.leadsTo_eq hu') m, hopen'.follow_eq, hplace]
    · refine Or.inr ⟨above,below ++ [n],?_,habove,by simp,hearlier⟩
      rw [hopen.path_eq, heq, List.append_assoc]

theorem mem_walk_or_shadowed (ht : t.WellFormed) (ht' : (t.put p (.link target)).WellFormed)
    (hnew : t.entryAt? p = none) (hroot : t.isDirectoryAt root) :
    ∃ visits, Enters (t.put p (.link target)) l root visits ∧ ∀ names ∈ l.walk t root,
      names ∈ l.walk (t.put p (.link target)) root ∨
        Shadowed (t.put p (.link target)) root visits names := by
  have hroot' : (t.put p (.link target)).isDirectoryAt root := by
    rwa [isDirectoryAt_put hnew]
  obtain ⟨visits,hvisits,hmem⟩ := exists_enters_and_mem_walk (l := l) ht hroot
  obtain ⟨visits',hvisits',hmem'⟩ := exists_enters_and_mem_walk (l := l) ht' hroot'
  refine ⟨visits',hvisits',fun names hnames => ?_⟩
  obtain ⟨hle,u,hu,n,hholds⟩ := (hmem names).mp hnames
  rcases mem_or_shadowed hnew hvisits hvisits' hu n with hu' | hshadowed
  · exact Or.inl ((hmem' names).mpr ⟨hle,u,hu',n,hholds.put hnew⟩)
  · exact Or.inr (hholds.path_eq ▸ hshadowed)

theorem locate_eq_ok_iff {cwd : List String} {path : String} {files : List LocatedFile} :
    l.locate t cwd path = .ok files ↔ ∃ root, t.resolve cwd path = .ok root ∧
      t.isDirectoryAt root ∧ files = l.locateIn t root := by
  unfold locate validateRoot
  cases hpath : t.resolve cwd path with
  | error e => simp [Except.map]
  | ok root =>
    by_cases hd : t.isDirectoryAt root
    · simp [Except.map, hd, @eq_comm _ files]
    · simp [Except.map, hd]

/-- A link never takes a file from what is located, but for a file below a directory that the search
now enters by an earlier path. -/
theorem located_unless_shadowed (ht : t.WellFormed) (ht' : (t.put p (.link target)).WellFormed)
    (hnew : t.entryAt? p = none) {cwd : List String} {path : String} {files : List LocatedFile}
    (hfiles : l.locate t cwd path = .ok files) :
    ∃ root files' visits, t.resolve cwd path = .ok root ∧
      l.locate (t.put p (.link target)) cwd path = .ok files' ∧
      Enters (t.put p (.link target)) l root visits ∧
      ∀ f ∈ files, f ∈ files' ∨ ∃ names, f.path = root ++ names ∧
        f.relative = Text.joined "/" names ∧
        Shadowed (t.put p (.link target)) root visits names := by
  obtain ⟨root,hpath,hroot,rfl⟩ := locate_eq_ok_iff.mp hfiles
  obtain ⟨visits,hvisits,hkept⟩ := mem_walk_or_shadowed (l := l) ht ht' hnew hroot
  have hlocate : l.locate (t.put p (.link target)) cwd path =
      .ok (l.locateIn (t.put p (.link target)) root) :=
    locate_eq_ok_iff.mpr ⟨root,resolve_put hnew hpath,by rwa [isDirectoryAt_put hnew],rfl⟩
  refine ⟨root,_,visits,hpath,hlocate,hvisits,fun f hf => ?_⟩
  obtain ⟨names,hnames,e,he,rfl⟩ := mem_locateIn_iff.mp hf
  rcases hkept names hnames with hnames | hshadowed
  · exact Or.inl (mem_locateIn_iff.mpr ⟨names,hnames,e,he,rfl⟩)
  · exact Or.inr ⟨names,rfl,rfl,hshadowed⟩

def workflows : FileTree :=
  ⟨[(["w"], .directory), (["w", ".github"], .directory),
    (["w", ".github", "workflows"], .directory),
    (["w", ".github", "workflows", "ci.yml"], .file [] false)]⟩

def aliased : FileTree := workflows.put ["w", ".a"] (.link ".github")

theorem workflows_facts :
    workflows.names ["w"] = [".github"] ∧ workflows.names ["w", ".github"] = ["workflows"] ∧
      workflows.names ["w", ".github", "workflows"] = ["ci.yml"] ∧
      workflows.isDirectoryAt ["w", ".github"] ∧
      workflows.isDirectoryAt ["w", ".github", "workflows"] ∧
      workflows.isDirectoryAt ["w", ".github", "workflows", "ci.yml"] = false := by decide

theorem follow_workflows :
    workflows.follow maxLinks ["w"] [".github"] = .ok ["w", ".github"] ∧
      workflows.follow maxLinks ["w", ".github"] ["workflows"] =
        .ok ["w", ".github", "workflows"] ∧
      workflows.follow maxLinks ["w", ".github", "workflows"] ["ci.yml"] =
        .ok ["w", ".github", "workflows", "ci.yml"] := by
  have hnamed : ∀ path n, workflows.isDirectoryAt path → Path.IsName n →
      workflows.entryAt? (path ++ [n]) = some .directory ∨
        workflows.entryAt? (path ++ [n]) = some (.file [] false) →
      workflows.follow maxLinks path [n] = .ok (path ++ [n]) := by
    intro path n hd hn he
    rcases he with he | he
    · exact follow_name hd hn he (by simp)
    · exact follow_name hd hn he (by simp)
  refine ⟨hnamed _ _ ?_ ?_ ?_,hnamed _ _ ?_ ?_ ?_,hnamed _ _ ?_ ?_ ?_⟩ <;> decide

theorem isExcluded_workflows (hl : make 3 [] = .ok l) :
    ∀ names ∈ [[".github"], [".github", "workflows"], [".a"], [".a", "workflows"]],
      l.excludes.isExcluded (Text.joined "/" names) = false := by
  have hrules : (ExcludeRules.ofPatterns []).toOption.all fun r =>
      [[".github"], [".github", "workflows"], [".a"], [".a", "workflows"]].all fun names =>
        !r.isExcluded (Text.joined "/" names) := by decide +kernel
  rw [(make_eq_ok_iff.mp hl).2.2] at hrules
  simpa [Except.toOption] using hrules

theorem walk_workflows (hl : make 3 [] = .ok l) :
    l.walk workflows ["w"] = [[".github", "workflows", "ci.yml"]] := by
  have hdepth : l.maxDepth = 3 := (make_eq_ok_iff.mp hl).1
  have hlength : workflows.entries.length = 4 := rfl
  obtain ⟨hroot,hgithub,hworkflows,hdir,hdir',hfile⟩ := workflows_facts
  obtain ⟨hfollow,hfollow',hfollow''⟩ := follow_workflows
  have hexcluded := isExcluded_workflows hl
  simp only [List.forall_mem_cons] at hexcluded
  simp [walk, walkDirectory, walkEntries, *]

theorem entryAt?_workflows : workflows.entryAt? ["w", ".a"] = none := by decide

theorem follow_alias : aliased.follow maxLinks ["w"] [".a"] = .ok ["w", ".github"] := by
  have hroot : aliased.isDirectoryAt ["w"] := by decide
  have hlink : aliased.entryAt? ["w", ".a"] = some (.link ".github") := by decide
  have htarget : aliased.entryAt? ["w", ".github"] = some .directory := by decide
  have hrelative : Path.isAbsolute ".github" = false := by decide
  have hpieces : Path.pieces ".github" = [".github"] := by decide
  have hshort : isTooLong ".a" = false ∧ isTooLong ".github" = false := by decide
  simp [maxLinks, follow, *]

theorem walk_aliased (hl : make 3 [] = .ok l) :
    l.walk aliased ["w"] = [[".a", "workflows", "ci.yml"]] := by
  have hdepth : l.maxDepth = 3 := (make_eq_ok_iff.mp hl).1
  have hlength : aliased.entries.length = 5 := by decide
  have hnames : aliased.names ["w"] = [".a", ".github"] ∧
      aliased.names ["w", ".github"] = ["workflows"] ∧
      aliased.names ["w", ".github", "workflows"] = ["ci.yml"] := by decide
  have hdirectory : ∀ q, aliased.isDirectoryAt q = workflows.isDirectoryAt q :=
    isDirectoryAt_put entryAt?_workflows
  have halias : aliased.follow maxLinks ["w"] [".a"] = .ok ["w", ".github"] := follow_alias
  obtain ⟨_,_,_,hdir,hdir',hfile⟩ := workflows_facts
  obtain ⟨hfollow,hfollow',hfollow''⟩ := follow_workflows
  have hkept : ∀ {at_ ps q}, workflows.follow maxLinks at_ ps = .ok q →
      aliased.follow maxLinks at_ ps = .ok q := follow_put entryAt?_workflows
  have hexcluded := isExcluded_workflows hl
  simp only [List.forall_mem_cons] at hexcluded
  simp [walk, walkDirectory, walkEntries, *]

def workflowEntry : CatalogEntry := ⟨".github/workflows/*.yml", .yaml, .ci, [.ci], none⟩

theorem mem_located_workflows (hl : make 3 [] = .ok l) :
    ⟨["w", ".github", "workflows", "ci.yml"], ".github/workflows/ci.yml", workflowEntry⟩ ∈
      l.locateIn workflows ["w"] := by
  have hentry : workflowEntry ∈ l.matching ".github/workflows/ci.yml" :=
    (mem_matching (make_eq_ok_iff.mp hl).2.1).mpr ⟨by decide +kernel,by decide +kernel⟩
  have hpath : Text.joined "/" [".github", "workflows", "ci.yml"] =
      ".github/workflows/ci.yml" := by decide +kernel
  refine mem_locateIn_iff.mpr ⟨[".github", "workflows", "ci.yml"],?_,workflowEntry,?_,?_⟩
  · rw [walk_workflows hl]
    exact List.mem_singleton_self _
  · rwa [hpath]
  · rw [hpath]
    rfl

theorem resolve_workflows : workflows.resolve ["w"] "." = .ok ["w"] := by
  have hroot : workflows.isDirectoryAt ["w"] := by decide
  have hpieces : Path.pieces "." = ["."] := by decide
  simp [resolve, hpieces, follow, hroot, Path.isAbsolute]

theorem located_unless_shadowed_workflows :
    workflows.WellFormed ∧ aliased.WellFormed ∧ workflows.entryAt? ["w", ".a"] = none ∧
      ∃ l files, make 3 [] = .ok l ∧ l.locate workflows ["w"] "." = .ok files ∧
        (∃ f ∈ files, f.relative = ".github/workflows/ci.yml") ∧
        ∃ root files' visits, workflows.resolve ["w"] "." = .ok root ∧
          l.locate aliased ["w"] "." = .ok files' ∧ Enters aliased l root visits ∧
          ∀ f ∈ files, f ∈ files' ∨ ∃ names, f.path = root ++ names ∧
            f.relative = Text.joined "/" names ∧ Shadowed aliased root visits names := by
  have hwell : workflows.WellFormed := by decide +kernel
  have hwell' : aliased.WellFormed := by decide +kernel
  obtain ⟨l,hl⟩ := exists_make 3 (show ExcludeRules.Valid [] by decide +kernel)
  have hfiles : l.locate workflows ["w"] "." = .ok (l.locateIn workflows ["w"]) :=
    locate_eq_ok_iff.mpr ⟨_,resolve_workflows,by decide +kernel,rfl⟩
  exact ⟨hwell,hwell',entryAt?_workflows,l,_,hl,hfiles,⟨_,mem_located_workflows hl,rfl⟩,
    located_unless_shadowed hwell hwell' entryAt?_workflows hfiles⟩

/-- With the other name the workflow is no longer found. -/
theorem alias_hides_workflow :
    workflows.WellFormed ∧ workflows.entryAt? ["w", ".a"] = none ∧
      (workflows.put ["w", ".a"] (.link ".github")).WellFormed ∧
      ∃ l files files', make 3 [] = .ok l ∧ l.locate workflows ["w"] "." = .ok files ∧
        l.locate (workflows.put ["w", ".a"] (.link ".github")) ["w"] "." = .ok files' ∧
        (∃ f ∈ files, f.relative = ".github/workflows/ci.yml" ∧
          f.entry.pattern = ".github/workflows/*.yml") ∧
        ∀ f ∈ files', f.relative ≠ ".github/workflows/ci.yml" := by
  obtain ⟨l,hl⟩ := exists_make 3 (show ExcludeRules.Valid [] by decide +kernel)
  have hroot : workflows.isDirectoryAt ["w"] := by decide +kernel
  refine ⟨by decide +kernel,entryAt?_workflows,by decide +kernel,l,_,_,hl,
    locate_eq_ok_iff.mpr ⟨_,resolve_workflows,hroot,rfl⟩,
    locate_eq_ok_iff.mpr ⟨_,resolve_put entryAt?_workflows resolve_workflows,
      by rwa [isDirectoryAt_put entryAt?_workflows],rfl⟩,
    ⟨_,mem_located_workflows hl,rfl,rfl⟩,?_⟩
  intro f hf
  obtain ⟨names,hnames,e,_,rfl⟩ := mem_locateIn_iff.mp hf
  have hwalk := walk_aliased hl
  unfold aliased at hwalk
  rw [hwalk, List.mem_singleton] at hnames
  subst hnames
  show Text.joined "/" [".a", "workflows", "ci.yml"] ≠ ".github/workflows/ci.yml"
  decide +kernel

end Workbench.Locator

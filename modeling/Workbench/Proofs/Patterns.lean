import Mathlib.Data.List.Forall2
import Mathlib.Data.List.Nodup
import Workbench.Locate
import Workbench.Proofs.PathNames
set_option autoImplicit false

namespace Workbench

theorem isOk_iff {α ε : Type} {x : Except ε α} : x.isOk ↔ ∃ a, x = .ok a := by
  cases x <;> simp [Except.isOk, Except.toBool]

theorem mapM_eq_ok_iff {α β ε : Type} {f : α → Except ε β} {xs : List α} {ys : List β} :
    xs.mapM f = .ok ys ↔ List.Forall₂ (fun x y => f x = .ok y) xs ys := by
  induction xs generalizing ys with
  | nil => simp [pure, Except.pure, eq_comm]
  | cons x xs ih =>
    rw [List.mapM_cons, List.forall₂_cons_left_iff]
    cases hx : f x with
    | error e => simp [bind, Except.bind]
    | ok y =>
      cases hxs : xs.mapM f with
      | error e => simp [bind, Except.bind, ← ih, hxs]
      | ok zs => simp [bind, Except.bind, pure, Except.pure, ← ih, hxs, eq_comm]

theorem exists_mapM_eq_ok {α β ε : Type} {f : α → Except ε β} {xs : List α}
    (h : ∀ x ∈ xs, ∃ y, f x = .ok y) : ∃ ys, xs.mapM f = .ok ys := by
  induction xs with
  | nil => exact ⟨[],rfl⟩
  | cons x xs ih =>
    obtain ⟨y,hy⟩ := h x List.mem_cons_self
    obtain ⟨ys,hys⟩ := ih fun z hz => h z (List.mem_cons_of_mem _ hz)
    exact ⟨y :: ys,mapM_eq_ok_iff.mpr (.cons hy (mapM_eq_ok_iff.mp hys))⟩

theorem mem_of_mapM_eq_ok {α β ε : Type} {f : α → Except ε β} {xs : List α} {ys : List β}
    (h : xs.mapM f = .ok ys) {y : β} : y ∈ ys ↔ ∃ x ∈ xs, f x = .ok y := by
  rw [mapM_eq_ok_iff] at h
  induction h with
  | nil => simp
  | @cons x z xs zs hx _ ih => simp [ih, hx, eq_comm]

def CatalogEntry.Fits (e : CatalogEntry) (relative : String) : Prop :=
  ∃ g, Glob.parse true e.pattern = .ok g ∧ g.isMatch (Utf8.encoded relative)

instance (e : CatalogEntry) (relative : String) : Decidable (e.Fits relative) :=
  decidable_of_iff ((Glob.parse true e.pattern).toOption.any fun g =>
      g.isMatch (Utf8.encoded relative))
    (by unfold CatalogEntry.Fits; cases Glob.parse true e.pattern <;> simp [Except.toOption])

namespace Catalog

theorem isOk_parse : ∀ e ∈ entries, (Glob.parse true e.pattern).isOk := by decide +kernel

theorem nodup_patterns : (entries.map CatalogEntry.pattern).Nodup := by decide +kernel

theorem eq_of_pattern {d e : CatalogEntry} (hd : d ∈ entries) (he : e ∈ entries)
    (h : d.pattern = e.pattern) : d = e := List.inj_on_of_nodup_map nodup_patterns hd he h

end Catalog

namespace ExcludeRules

/-- All patterns in force: of a further one only what is left of it, if anything is. -/
def patterns (extra : List String) : List String := standard ++ extra.filterMap tidy?

def Valid (extra : List String) : Prop :=
  ∀ p ∈ extra.filterMap tidy?, ∃ g, Glob.parse false p = .ok g

instance (extra : List String) : Decidable (Valid extra) :=
  decidable_of_iff (∀ p ∈ extra.filterMap tidy?, (Glob.parse false p).isOk)
    (forall₂_congr fun _ _ => isOk_iff)

/-- A pattern matches the name of a directory or its path below the root. -/
def Excludes (extra directory : List String) : Prop :=
  ∃ p ∈ patterns extra, ∃ g, Glob.parse false p = .ok g ∧
    ((∃ n, directory.getLast? = some n ∧ g.isMatch (Utf8.encoded n)) ∨
      g.isMatch (Utf8.encoded (Text.joined "/" directory)))

theorem isOk_parse_standard : ∀ p ∈ standard, (Glob.parse false p).isOk := by decide +kernel

theorem ofPatterns_eq_ok_iff {extra : List String} {r : ExcludeRules} :
    ofPatterns extra = .ok r ↔ (patterns extra).mapM (Glob.parse false) = .ok r.globs := by
  unfold ofPatterns patterns
  cases (standard ++ extra.filterMap tidy?).mapM (Glob.parse false) with
  | error e => simp
  | ok globs => cases r; simp

theorem exists_ofPatterns {extra : List String} (h : Valid extra) :
    ∃ r, ofPatterns extra = .ok r := by
  have hparse : ∀ p ∈ patterns extra, ∃ g, Glob.parse false p = .ok g := by
    intro p hp
    rcases List.mem_append.mp hp with hp | hp
    · exact isOk_iff.mp (isOk_parse_standard p hp)
    · exact h p hp
  obtain ⟨globs,hglobs⟩ := exists_mapM_eq_ok hparse
  exact ⟨⟨globs⟩,ofPatterns_eq_ok_iff.mpr hglobs⟩

theorem anyMatch_iff {extra : List String} {r : ExcludeRules} (h : ofPatterns extra = .ok r)
    (path : String) :
    r.anyMatch path ↔ ∃ p ∈ patterns extra, ∃ g, Glob.parse false p = .ok g ∧
      g.isMatch (Utf8.encoded path) := by
  rw [anyMatch, List.any_eq_true]
  simp only [mem_of_mapM_eq_ok (ofPatterns_eq_ok_iff.mp h)]
  constructor
  · rintro ⟨g,⟨p,hp,hg⟩,hmatch⟩
    exact ⟨p,hp,g,hg,hmatch⟩
  · rintro ⟨p,hp,g,hg,hmatch⟩
    exact ⟨g,⟨p,hp,hg⟩,hmatch⟩

theorem isExcluded_iff {extra : List String} {r : ExcludeRules} (h : ofPatterns extra = .ok r)
    {directory : List String} (hn : ∀ n ∈ directory, Path.IsName n) (hne : directory ≠ []) :
    r.isExcluded (Text.joined "/" directory) ↔ Excludes extra directory := by
  rw [isExcluded, Path.lastName?_joined hn hne, Bool.or_eq_true, Option.any_eq_true,
    anyMatch_iff h]
  simp only [anyMatch_iff h]
  constructor
  · rintro (⟨n,hlast,p,hp,g,hg,hmatch⟩ | ⟨p,hp,g,hg,hmatch⟩)
    · exact ⟨p,hp,g,hg,Or.inl ⟨n,hlast,hmatch⟩⟩
    · exact ⟨p,hp,g,hg,Or.inr hmatch⟩
  · rintro ⟨p,hp,g,hg,⟨n,hlast,hmatch⟩ | hmatch⟩
    · exact Or.inl ⟨n,hlast,p,hp,g,hg,hmatch⟩
    · exact Or.inr ⟨p,hp,g,hg,hmatch⟩

end ExcludeRules

namespace Locator

variable {l : Locator} {maxDepth : Nat} {extra : List String}

theorem compile_eq_ok_iff {e : CatalogEntry} {p : CatalogEntry × Glob} :
    compile e = .ok p ↔ p.1 = e ∧ Glob.parse true e.pattern = .ok p.2 := by
  unfold compile
  obtain ⟨d,g⟩ := p
  cases Glob.parse true e.pattern <;> simp [eq_comm]

theorem make_eq_ok_iff :
    make maxDepth extra = .ok l ↔ l.maxDepth = maxDepth ∧
      Catalog.entries.mapM compile = .ok l.patterns ∧
      ExcludeRules.ofPatterns extra = .ok l.excludes := by
  obtain ⟨depth,rules,patterns⟩ := l
  unfold make
  cases Catalog.entries.mapM compile with
  | error e => simp [bind, Except.bind]
  | ok ps =>
    cases ExcludeRules.ofPatterns extra with
    | error e => simp [bind, Except.bind]
    | ok r => simp [bind, Except.bind, eq_comm, and_comm]

theorem exists_make (maxDepth : Nat) (h : ExcludeRules.Valid extra) :
    ∃ l, make maxDepth extra = .ok l := by
  have hcompile : ∀ e ∈ Catalog.entries, ∃ p, compile e = .ok p := by
    intro e he
    obtain ⟨g,hg⟩ := isOk_iff.mp (Catalog.isOk_parse e he)
    exact ⟨(e, g),compile_eq_ok_iff.mpr ⟨rfl,hg⟩⟩
  obtain ⟨patterns,hpatterns⟩ := exists_mapM_eq_ok hcompile
  obtain ⟨rules,hrules⟩ := ExcludeRules.exists_ofPatterns h
  exact ⟨⟨maxDepth, rules, patterns⟩,make_eq_ok_iff.mpr ⟨rfl,hpatterns,hrules⟩⟩

theorem map_fst_patterns (h : Catalog.entries.mapM compile = .ok l.patterns) :
    l.patterns.map Prod.fst = Catalog.entries := by
  have hsame : List.Forall₂ (· = ·) Catalog.entries (l.patterns.map Prod.fst) := by
    rw [List.forall₂_map_right_iff]
    exact (mapM_eq_ok_iff.mp h).imp fun _ _ hp => (compile_eq_ok_iff.mp hp).1.symm
  rw [List.forall₂_eq_eq_eq] at hsame
  exact hsame.symm

theorem mem_matching (h : Catalog.entries.mapM compile = .ok l.patterns) {relative : String}
    {e : CatalogEntry} : e ∈ l.matching relative ↔ e ∈ Catalog.entries ∧ e.Fits relative := by
  simp only [matching, List.mem_filterMap, mem_of_mapM_eq_ok h, compile_eq_ok_iff]
  constructor
  · rintro ⟨⟨d,g⟩,⟨_,hd,rfl,hg⟩,hmatch⟩
    split_ifs at hmatch with hfits
    cases hmatch
    exact ⟨hd,g,hg,hfits⟩
  · rintro ⟨he,g,hg,hfits⟩
    exact ⟨(e, g),⟨e,he,rfl,hg⟩,if_pos hfits⟩

theorem nodup_matching (h : Catalog.entries.mapM compile = .ok l.patterns) (relative : String) :
    (l.matching relative).Nodup := by
  have hentries : (l.patterns.map Prod.fst).Nodup := by
    rw [map_fst_patterns h]
    exact List.Nodup.of_map _ Catalog.nodup_patterns
  refine List.Pairwise.filterMap _ ?_ (List.pairwise_map.mp hentries)
  rintro ⟨a,g⟩ ⟨b,k⟩ hne x hx y hy
  simp only at hx hy
  split_ifs at hx hy
  cases hx
  cases hy
  exact hne

end Locator
end Workbench

import Workbench.Proofs.TreeShape
set_option autoImplicit false

namespace Workbench.FileTree

variable {t : FileTree} {p : List String} {target : String}

theorem entryAt?_put_self (hne : p ≠ []) (hnew : t.entryAt? p = none) (e : Entry) :
    (t.put p e).entryAt? p = some e := by
  rw [entryAt?, if_neg hne, Option.map_eq_none_iff, List.find?_eq_none] at hnew
  have hnone : (t.entries.filter fun x => x.1 != p).find? (fun x => x.1 == p) = none := by
    rw [List.find?_eq_none]
    exact fun x hx => hnew x (List.mem_filter.mp hx).1
  simp [entryAt?, put, hne, List.find?_append, hnone]

theorem entryAt?_put_other {q : List String} (hq : q ≠ p) (e : Entry) :
    (t.put p e).entryAt? q = t.entryAt? q := by
  unfold put
  split_ifs with hp
  · rfl
  · have hsame : (t.entries.filter fun x => x.1 != p).find? (fun x => x.1 == q) =
        t.entries.find? fun x => x.1 == q := by
      rw [List.find?_filter]
      congr 1
      funext x
      by_cases hx : x.1 = q
      · simp [hx, hq]
      · simp [hx]
    have hend : [(p, e)].find? (fun x => x.1 == q) = none := by simp [Ne.symm hq]
    simp [entryAt?, List.find?_append, hsame, hend]

theorem ne_nil_of_entryAt?_eq_none (hnew : t.entryAt? p = none) : p ≠ [] := by
  rintro rfl
  simp [entryAt?] at hnew

theorem entryAt?_put (hnew : t.entryAt? p = none) {q : List String} {e : Entry}
    (h : t.entryAt? q = some e) : (t.put p (.link target)).entryAt? q = some e := by
  have hq : q ≠ p := by
    rintro rfl
    rw [hnew] at h
    cases h
  rw [entryAt?_put_other hq, h]

theorem isDirectoryAt_put (hnew : t.entryAt? p = none) (q : List String) :
    (t.put p (.link target)).isDirectoryAt q = t.isDirectoryAt q := by
  unfold isDirectoryAt
  by_cases hq : q = p
  · subst hq
    rw [entryAt?_put_self (ne_nil_of_entryAt?_eq_none hnew) hnew, hnew]
  · rw [entryAt?_put_other hq]

theorem mem_names_put (hnew : t.entryAt? p = none) {q : List String} {n : String}
    (h : n ∈ t.names q) : n ∈ (t.put p (.link target)).names q := by
  obtain ⟨e,he⟩ := Option.isSome_iff_exists.mp (mem_names.mp h)
  rw [mem_names, entryAt?_put hnew he]
  rfl

/-- By induction along the path and the links that it takes. -/
theorem follow_put (hnew : t.entryAt? p = none) {links : Nat} {at_ ps q : List String}
    (h : t.follow links at_ ps = .ok q) :
    (t.put p (.link target)).follow links at_ ps = .ok q := by
  fun_induction follow t links at_ ps with
  | case1 => simpa [follow] using h
  | case2 | case5 | case6 | case7 | case8 => cases h
  | case3 _ _ _ _ hd hself ih =>
    rw [follow, isDirectoryAt_put hnew, if_neg hd, if_pos hself]
    exact ih h
  | case4 _ _ _ hd hself ih =>
    rw [follow, isDirectoryAt_put hnew, if_neg hd, if_neg hself, if_pos rfl]
    exact ih h
  | case9 _ _ _ hd hself hup hlong _ he _ htarget ih =>
    rw [follow, isDirectoryAt_put hnew, if_neg hd, if_neg hself, if_neg hup, if_neg hlong,
      entryAt?_put hnew he]
    simp only [if_neg htarget]
    exact ih h
  | case10 _ _ _ _ hd hself hup hlong e hlink he ih =>
    rw [follow, isDirectoryAt_put hnew, if_neg hd, if_neg hself, if_neg hup, if_neg hlong,
      entryAt?_put hnew he]
    cases e with
    | link target => exact absurd rfl (hlink target)
    | directory => exact ih h
    | file content executable => exact ih h

theorem resolve_put (hnew : t.entryAt? p = none) {cwd q : List String} {path : String}
    (h : t.resolve cwd path = .ok q) : (t.put p (.link target)).resolve cwd path = .ok q := by
  unfold resolve at h ⊢
  split_ifs at h ⊢ <;> exact follow_put hnew h

end Workbench.FileTree

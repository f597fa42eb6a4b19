import Workbench.Locate
import Workbench.Proofs.TreeShape
set_option autoImplicit false

namespace Workbench.Locator
open FileTree

/-- The names lead from a directory to a file, not too far down and through no directory that is
excluded. The path of the first directory is `above` below the root. -/
structure Reaches (t : FileTree) (l : Locator) (root : List String) (depth : Nat)
    (above names : List String) : Prop where
  ne_nil : names ≠ []
  length_le : names.length ≤ depth
  file : t.IsFileAt (root ++ above ++ names)
  searched : ∀ a b, names = a ++ b → a ≠ [] → b ≠ [] →
    l.excludes.isExcluded (Text.joined "/" (above ++ a)) = false

variable {t : FileTree} {l : Locator} {root above : List String}

theorem not_reaches_zero {names : List String} : ¬ Reaches t l root 0 above names :=
  fun h => h.ne_nil (List.length_eq_zero_iff.mp (Nat.le_zero.mp h.length_le))

theorem reaches_single {depth : Nat} {n : String} :
    Reaches t l root (depth+1) above [n] ↔ t.IsFileAt (root ++ above ++ [n]) := by
  refine ⟨fun h => h.file,fun h => ⟨by simp,by simp,h,?_⟩⟩
  intro a b he ha hb
  have hlen := congrArg List.length he
  have hpos := List.length_pos_iff.mpr ha
  have hpos' := List.length_pos_iff.mpr hb
  simp only [List.length_append, List.length_singleton] at hlen
  omega

theorem reaches_cons {depth : Nat} {n : String} {names : List String} (hne : names ≠ []) :
    Reaches t l root (depth+1) above (n :: names) ↔
      l.excludes.isExcluded (Text.joined "/" (above ++ [n])) = false ∧
        Reaches t l root depth (above ++ [n]) names := by
  constructor
  · intro h
    refine ⟨h.searched [n] names rfl (by simp) hne,hne,?_,?_,?_⟩
    · have hle := h.length_le
      simpa using hle
    · have hfile := h.file
      simpa using hfile
    · intro a b he ha hb
      have hex := h.searched (n :: a) b (by simp [he]) (by simp) hb
      simpa using hex
  · rintro ⟨hex,h⟩
    refine ⟨by simp,?_,?_,?_⟩
    · have hle := h.length_le
      simpa using hle
    · have hfile := h.file
      simpa using hfile
    · intro a b he ha hb
      cases a with
      | nil => exact absurd rfl ha
      | cons m a =>
        obtain ⟨rfl,htail⟩ := List.cons.inj he
        by_cases ha' : a = []
        · simpa [ha'] using hex
        · have hnext := h.searched a b htail ha' hb
          simpa using hnext

theorem ne_nil_of_reaches {depth : Nat} {n : String} {names : List String}
    (hd : t.isDirectoryAt (root ++ above ++ [n]))
    (h : Reaches t l root (depth+1) above (n :: names)) : names ≠ [] := by
  rintro rfl
  have hfile := (isFileAt_iff.mp (reaches_single.mp h)).2
  rw [hd] at hfile
  exact Bool.noConfusion hfile

/-- From one state of a search to a later one: what was found between, each once, and where the
directories lie that were entered between. -/
structure Gains (w w' : Walk) (found seen : List String → Prop) : Prop where
  exists_found : ∃ xs, w'.found = xs ++ w.found ∧ xs.Nodup ∧ ∀ x, x ∈ xs ↔ found x
  visited : ∀ p ∈ w'.visited, p ∈ w.visited ∨ seen p

theorem Gains.nothing (w : Walk) {found seen : List String → Prop} (h : ∀ x, ¬ found x) :
    Gains w w found seen :=
  ⟨⟨[],rfl,List.nodup_nil,fun x => by simp [h x]⟩,fun _ hp => Or.inl hp⟩

theorem Gains.trans {w₁ w₂ w₃ : Walk} {found₁ seen₁ found₂ seen₂ : List String → Prop}
    (h : Gains w₁ w₂ found₁ seen₁) (h' : Gains w₂ w₃ found₂ seen₂)
    (hdisj : ∀ x, found₁ x → ¬ found₂ x) :
    Gains w₁ w₃ (fun x => found₁ x ∨ found₂ x) fun p => seen₁ p ∨ seen₂ p := by
  obtain ⟨xs,hxs,hnx,hmx⟩ := h.exists_found
  obtain ⟨ys,hys,hny,hmy⟩ := h'.exists_found
  refine ⟨⟨ys ++ xs,?_,?_,?_⟩,?_⟩
  · rw [hys, hxs, List.append_assoc]
  · refine List.nodup_append'.mpr ⟨hny,hnx,fun x hy hx => ?_⟩
    exact hdisj x ((hmx x).mp hx) ((hmy x).mp hy)
  · intro x
    rw [List.mem_append, hmx, hmy, or_comm]
  · intro p hp
    rcases h'.visited p hp with hp | hp
    · exact (h.visited p hp).imp_right Or.inl
    · exact Or.inr (Or.inr hp)

theorem Gains.congr {w w' : Walk} {found seen found' seen' : List String → Prop}
    (h : Gains w w' found seen) (hf : ∀ x, found x ↔ found' x) (hs : ∀ p, seen p → seen' p) :
    Gains w w' found' seen' := by
  obtain ⟨xs,hxs,hnx,hmx⟩ := h.exists_found
  exact ⟨⟨xs,hxs,hnx,fun x => (hmx x).trans (hf x)⟩,fun p hp => (h.visited p hp).imp_right (hs p)⟩

def visitEntry (t : FileTree) (l : Locator) (fuel depth : Nat) (real names : List String)
    (n : String) (w : Walk) : Walk :=
  match t.follow FileTree.maxLinks real [n] with
  | .error _ => w
  | .ok target =>
    if t.isDirectoryAt target then
      if l.excludes.isExcluded (Text.joined "/" (names ++ [n])) then w
      else if w.visited.contains target then w
      else walkDirectory t l fuel depth target (names ++ [n])
        { w with visited := target :: w.visited }
    else { w with found := (names ++ [n]) :: w.found }

theorem walkEntries_cons (fuel depth : Nat) (real names : List String) (n : String)
    (ns : List String) (w : Walk) :
    walkEntries t l fuel depth real names (n :: ns) w =
      walkEntries t l fuel depth real names ns (visitEntry t l fuel depth real names n w) := by
  rw [walkEntries]
  rfl

/-- What searching a directory adds, with this bound on nesting. -/
def SearchGains (t : FileTree) (l : Locator) (root : List String) (fuel : Nat) : Prop :=
  ∀ depth above w, t.isDirectoryAt (root ++ above) → t.entries.length < fuel + above.length →
    (∀ p ∈ w.visited, ∀ n s, p ≠ root ++ above ++ n :: s) →
    Gains w (walkDirectory t l fuel depth (root ++ above) above w)
      (fun x => ∃ s, x = above ++ s ∧ Reaches t l root depth above s)
      (fun p => ∃ n s, p = root ++ above ++ n :: s)

theorem follow_of_mem_names (ht : t.WellFormed) (hlinks : t.NoLinksBelow root) {n : String}
    (hn : n ∈ t.names (root ++ above)) :
    t.follow FileTree.maxLinks (root ++ above) [n] = .ok (root ++ above ++ [n]) := by
  have hsome := mem_names.mp hn
  obtain ⟨e,he⟩ := Option.isSome_iff_exists.mp hsome
  have hlink : ∀ target, e ≠ .link target := by
    rintro target rfl
    exact hlinks (above ++ [n]) target (by rwa [← List.append_assoc])
  exact follow_name (parent_of_entry ht hsome) (named_of_entry ht hsome n (by simp)) he hlink

theorem gains_enter {fuel depth : Nat} (ih : SearchGains t l root fuel)
    (hfuel : t.entries.length < fuel + (above.length+1)) {n : String}
    (hd : t.isDirectoryAt (root ++ above ++ [n]))
    (hex : l.excludes.isExcluded (Text.joined "/" (above ++ [n])) = false) {w : Walk}
    (hnew : ∀ p ∈ w.visited, ∀ s, p ≠ root ++ above ++ n :: s) :
    Gains w (walkDirectory t l fuel depth (root ++ above ++ [n]) (above ++ [n])
        { w with visited := (root ++ above ++ [n]) :: w.visited })
      (fun x => ∃ s, x = above ++ n :: s ∧ Reaches t l root (depth+1) above (n :: s))
      (fun p => ∃ s, p = root ++ above ++ n :: s) := by
  -- the directory itself is now among those seen, but it is not below itself
  have hnew' : ∀ p ∈ (root ++ above ++ [n]) :: w.visited, ∀ m s,
      p ≠ root ++ (above ++ [n]) ++ m :: s := by
    intro p hp m s
    rcases List.mem_cons.mp hp with rfl | hp
    · intro heq
      have hlen := congrArg List.length heq
      simp only [List.length_append, List.length_cons, List.length_nil] at hlen
      omega
    · have hne := hnew p hp (m :: s)
      simpa using hne
  have hgain := ih depth (above ++ [n]) { w with visited := (root ++ above ++ [n]) :: w.visited }
    (by rwa [← List.append_assoc]) (by simpa using hfuel) hnew'
  rw [← List.append_assoc] at hgain
  obtain ⟨xs,hxs,hnodup,hmem⟩ := hgain.exists_found
  refine ⟨⟨xs,hxs,hnodup,fun x => (hmem x).trans ?_⟩,fun p hp => ?_⟩
  · constructor
    · rintro ⟨s,rfl,hs⟩
      exact ⟨s,by simp,(reaches_cons hs.ne_nil).mpr ⟨hex,hs⟩⟩
    · rintro ⟨s,rfl,hs⟩
      exact ⟨s,by simp,((reaches_cons (ne_nil_of_reaches hd hs)).mp hs).2⟩
  · rcases hgain.visited p hp with hp | ⟨m,s,rfl⟩
    · rcases List.mem_cons.mp hp with rfl | hp
      · exact Or.inr ⟨[],rfl⟩
      · exact Or.inl hp
    · exact Or.inr ⟨m :: s,by simp⟩

theorem gains_visitEntry (ht : t.WellFormed) (hlinks : t.NoLinksBelow root) {fuel : Nat}
    (depth : Nat) (ih : SearchGains t l root fuel)
    (hfuel : t.entries.length < fuel + (above.length+1)) {n : String}
    (hn : n ∈ t.names (root ++ above)) {w : Walk}
    (hnew : ∀ p ∈ w.visited, ∀ s, p ≠ root ++ above ++ n :: s) :
    Gains w (visitEntry t l fuel depth (root ++ above) above n w)
      (fun x => ∃ s, x = above ++ n :: s ∧ Reaches t l root (depth+1) above (n :: s))
      (fun p => ∃ s, p = root ++ above ++ n :: s) := by
  unfold visitEntry
  simp only [follow_of_mem_names ht hlinks hn]
  by_cases hd : t.isDirectoryAt (root ++ above ++ [n])
  · rw [if_pos hd]
    by_cases hex : l.excludes.isExcluded (Text.joined "/" (above ++ [n]))
    · rw [if_pos hex]
      refine Gains.nothing w ?_
      rintro x ⟨s,rfl,hs⟩
      simp [((reaches_cons (ne_nil_of_reaches hd hs)).mp hs).1] at hex
    · have hunseen : w.visited.contains (root ++ above ++ [n]) = false := by
        rw [← Bool.not_eq_true, List.contains_iff_mem]
        exact fun hm => hnew _ hm [] rfl
      rw [if_neg hex, hunseen, if_neg (by simp)]
      exact gains_enter ih hfuel hd (by simpa using hex) hnew
  · rw [if_neg hd]
    have hfile : t.IsFileAt (root ++ above ++ [n]) :=
      isFileAt_iff.mpr ⟨mem_names.mp hn,by simpa using hd⟩
    refine ⟨⟨[above ++ [n]],rfl,List.nodup_singleton _,fun x => ?_⟩,fun p hp => Or.inl hp⟩
    rw [List.mem_singleton]
    constructor
    · rintro rfl
      exact ⟨[],rfl,reaches_single.mpr hfile⟩
    · rintro ⟨s,rfl,hs⟩
      cases s with
      | nil => rfl
      | cons m s =>
        -- below a file there is nothing
        have hbelow : (t.entryAt? (root ++ above ++ [n] ++ m :: s)).isSome := by
          rw [List.append_assoc (root ++ above)]
          exact isSome_of_isFileAt hs.file
        exact absurd (ancestor_of_entry ht (by simp) hbelow) hd

theorem gains_walkEntries (ht : t.WellFormed) (hlinks : t.NoLinksBelow root) {fuel depth : Nat}
    (ih : SearchGains t l root fuel) (hfuel : t.entries.length < fuel + (above.length+1))
    (ns : List String) (hns : ∀ n ∈ ns, n ∈ t.names (root ++ above)) (hnodup : ns.Nodup) (w : Walk)
    (hnew : ∀ n ∈ ns, ∀ p ∈ w.visited, ∀ s, p ≠ root ++ above ++ n :: s) :
    Gains w (walkEntries t l fuel depth (root ++ above) above ns w)
      (fun x => ∃ n ∈ ns, ∃ s, x = above ++ n :: s ∧ Reaches t l root (depth+1) above (n :: s))
      (fun p => ∃ n ∈ ns, ∃ s, p = root ++ above ++ n :: s) := by
  induction ns generalizing w with
  | nil =>
    rw [walkEntries]
    exact Gains.nothing w (by simp)
  | cons n ns ihn =>
    obtain ⟨hn,hnodup⟩ := List.nodup_cons.mp hnodup
    have hfirst := gains_visitEntry ht hlinks depth ih hfuel (hns n List.mem_cons_self)
      (hnew n List.mem_cons_self)
    -- what the first name added lies below it, so below none of the names that follow
    have hrest := ihn (fun m hm => hns m (List.mem_cons_of_mem _ hm)) hnodup
      (visitEntry t l fuel depth (root ++ above) above n w) (by
        intro m hm p hp s
        rcases hfirst.visited p hp with hp | ⟨s',rfl⟩
        · exact hnew m (List.mem_cons_of_mem _ hm) p hp s
        · intro heq
          have hmn : n = m := (List.cons.inj (List.append_cancel_left heq)).1
          exact hn (hmn ▸ hm))
    rw [walkEntries_cons]
    refine (hfirst.trans hrest ?_).congr (fun x => ?_) fun p => ?_
    · rintro x ⟨s,rfl,_⟩ ⟨m,hm,s',heq,_⟩
      have hmn : n = m := (List.cons.inj (List.append_cancel_left heq)).1
      exact hn (hmn ▸ hm)
    · simp
    · simp

theorem mem_names_of_reaches (ht : t.WellFormed) {depth : Nat} {n : String} {s : List String}
    (h : Reaches t l root depth above (n :: s)) : n ∈ t.names (root ++ above) := by
  have hsome := isSome_of_isFileAt h.file
  rw [mem_names]
  by_cases hnil : s = []
  · rwa [hnil] at hsome
  · refine isSome_of_isDirectoryAt (ancestor_of_entry ht hnil ?_)
    rwa [List.append_assoc (root ++ above)]

/-- The bound on nesting counts down as the paths get longer, and no path is longer than there are
entries. -/
theorem searchGains (ht : t.WellFormed) (hlinks : t.NoLinksBelow root) (fuel : Nat) :
    SearchGains t l root fuel := by
  induction fuel with
  | zero =>
    intro depth above w hd hfuel _
    have hle := length_le_of_entry ht (isSome_of_isDirectoryAt hd)
    simp only [List.length_append] at hle
    omega
  | succ fuel ih =>
    intro depth above w _ hfuel hnew
    cases depth with
    | zero =>
      have hstop : walkDirectory t l (fuel+1) 0 (root ++ above) above w = w := by
        rw [walkDirectory]
        exact Nat.succ_ne_zero fuel
      rw [hstop]
      refine Gains.nothing w ?_
      rintro x ⟨s,_,hs⟩
      exact not_reaches_zero hs
    | succ depth =>
      rw [walkDirectory]
      refine (gains_walkEntries ht hlinks ih (by omega) _ (fun _ hn => hn) (nodup_names ht _) w
        fun n _ p hp s => hnew p hp n s).congr (fun x => ?_) ?_
      · constructor
        · rintro ⟨n,_,s,rfl,hs⟩
          exact ⟨n :: s,rfl,hs⟩
        · rintro ⟨s,rfl,hs⟩
          obtain ⟨n,s,rfl⟩ := List.exists_cons_of_ne_nil hs.ne_nil
          exact ⟨n,mem_names_of_reaches ht hs,s,rfl,hs⟩
      · rintro p ⟨n,_,s,rfl⟩
        exact ⟨n,s,rfl⟩

/-- The search meets exactly the files that can be reached, each once. -/
theorem nodup_walk_and_mem (ht : t.WellFormed) (hlinks : t.NoLinksBelow root)
    (hroot : t.isDirectoryAt root) :
    (l.walk t root).Nodup ∧
      ∀ names, names ∈ l.walk t root ↔ Reaches t l root l.maxDepth [] names := by
  have hgain := searchGains (l := l) ht hlinks (t.entries.length+1) l.maxDepth [] ⟨[root], []⟩
    (by simpa using hroot) (by simp) (by simp)
  rw [List.append_nil] at hgain
  obtain ⟨xs,hxs,hnodup,hmem⟩ := hgain.exists_found
  have hwalk : l.walk t root = xs.reverse := by
    rw [walk, hxs, List.append_nil]
  rw [hwalk]
  refine ⟨List.nodup_reverse.mpr hnodup,fun names => ?_⟩
  rw [List.mem_reverse, hmem]
  simp

theorem mem_locateIn_iff {f : LocatedFile} :
    f ∈ l.locateIn t root ↔ ∃ names ∈ l.walk t root, ∃ e ∈ l.matching (Text.joined "/" names),
      f = ⟨root ++ names, Text.joined "/" names, e⟩ := by
  rw [locateIn, List.mem_mergeSort, List.mem_flatMap]
  simp only [List.mem_map, @eq_comm _ f]

end Workbench.Locator

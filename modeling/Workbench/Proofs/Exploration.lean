import Mathlib.Data.List.Lex
import Workbench.Proofs.Walk
set_option autoImplicit false

/-! What a search enters and meets below a root, links or not. It goes through the paths in order,
and of the paths that lead to one directory it enters the directory under the first alone. -/

namespace Workbench.Locator
open FileTree

/-- A directory that a search enters: the path below the root that it came by, and the place that
the path stands for. -/
structure Visit where
  path : List String
  place : List String
  deriving DecidableEq, Repr

variable {t : FileTree} {l : Locator}

structure Opens (t : FileTree) (l : Locator) (u : Visit) (n : String) (v : Visit) : Prop where
  mem : n ∈ t.names u.place
  path_eq : v.path = u.path ++ [n]
  follow_eq : t.follow maxLinks u.place [n] = .ok v.place
  directory : t.isDirectoryAt v.place
  allowed : l.excludes.isExcluded (Text.joined "/" v.path) = false

structure Holds (t : FileTree) (u : Visit) (n : String) (names : List String) : Prop where
  mem : n ∈ t.names u.place
  path_eq : names = u.path ++ [n]
  leads : ∃ target, t.follow maxLinks u.place [n] = .ok target ∧ t.isDirectoryAt target = false

theorem Opens.place_eq {u v : Visit} {n : String} {target : List String} (h : Opens t l u n v)
    (hfollow : t.follow maxLinks u.place [n] = .ok target) : v.place = target :=
  Except.ok.inj (h.follow_eq.symm.trans hfollow)

theorem Opens.eq {u v w : Visit} {n : String} (hv : Opens t l u n v) (hw : Opens t l u n w) :
    v = w := by
  obtain ⟨path,place⟩ := v
  have hplace : place = w.place := hv.place_eq hw.follow_eq
  have hpath : path = w.path := hv.path_eq.trans hw.path_eq.symm
  rw [hplace, hpath]

theorem Holds.not_directory {u : Visit} {n : String} {names target : List String}
    (h : Holds t u n names) (hfollow : t.follow maxLinks u.place [n] = .ok target) :
    t.isDirectoryAt target = false := by
  obtain ⟨q,hq,hfile⟩ := h.leads
  rwa [← Except.ok.inj (hq.symm.trans hfollow)]

theorem Opens.not_holds {u v : Visit} {n : String} (h : Opens t l u n v) (names : List String) :
    ¬ Holds t u n names := by
  intro hnames
  have hdir := h.directory
  rw [hnames.not_directory h.follow_eq] at hdir
  exact Bool.noConfusion hdir

theorem lt_append_cons (a s : List String) (n : String) : a < a ++ n :: s := by
  have h : a ++ [] < a ++ n :: s := List.append_left_lt (List.nil_lt_cons n s)
  rwa [List.append_nil] at h

theorem append_cons_lt {m n : String} (h : m < n) (a r s : List String) :
    a ++ m :: r < a ++ n :: s :=
  List.append_left_lt (List.cons_lt_cons_iff.mpr (Or.inl h))

theorem Opens.lt {u v : Visit} {n : String} (h : Opens t l u n v) : u.path < v.path :=
  h.path_eq ▸ lt_append_cons u.path [] n

structure Log (t : FileTree) (w : Walk) (visits : List Visit) : Prop where
  visited : w.visited = (visits.map Visit.place).reverse
  nodup : (visits.map Visit.place).Nodup
  directory : ∀ v ∈ visits, t.isDirectoryAt v.place

theorem Log.length_le {w : Walk} {visits : List Visit} (h : Log t w visits) :
    visits.length ≤ t.entries.length + 1 := by
  have hsub : ∀ p ∈ visits.map Visit.place, p ∈ [] :: t.entries.map Prod.fst := by
    intro p hp
    obtain ⟨v,hv,rfl⟩ := List.mem_map.mp hp
    by_cases hroot : v.place = []
    · rw [hroot]
      exact List.mem_cons_self
    · have hmem := mem_of_entryAt? hroot (isDirectoryAt_iff.mp (h.directory v hv))
      exact List.mem_cons_of_mem _ (List.mem_map_of_mem (f := Prod.fst) hmem)
  simpa using (List.subperm_of_subset h.nodup hsub).length_le

theorem Log.mem_visited {w : Walk} {visits : List Visit} (h : Log t w visits) {p : List String} :
    p ∈ w.visited ↔ ∃ v ∈ visits, v.place = p := by
  rw [h.visited, List.mem_reverse, List.mem_map]

/-- What a search adds that goes from `u` by the names `ns`, after it has entered `before`: each
directory under the first path that leads to it, and what those hold that is no directory. -/
structure Explores (t : FileTree) (l : Locator) (u : Visit) (ns : List String)
    (before new : List Visit) (w w' : Walk) : Prop where
  log : Log t w' (before ++ new)
  mem_iff : ∀ v, v ∈ new ↔
    ((∃ n ∈ ns, Opens t l u n v) ∨ ∃ u' ∈ new, ∃ n, Opens t l u' n v) ∧
      v.path.length ≤ l.maxDepth ∧ (∀ b ∈ before, b.place ≠ v.place) ∧
      ∀ b ∈ new, b.place = v.place → ¬ b.path < v.path
  found : ∃ xs, w'.found = xs ++ w.found ∧ ∀ x, x ∈ xs ↔
    ((∃ n ∈ ns, Holds t u n x) ∨ ∃ u' ∈ new, ∃ n, Holds t u' n x) ∧ x.length ≤ l.maxDepth

variable {u : Visit} {before : List Visit} {w : Walk}

theorem Explores.nothing {ns : List String} (hlog : Log t w before)
    (hopens : ∀ n ∈ ns, ∀ v, Opens t l u n v → v.path.length ≤ l.maxDepth →
      ∃ b ∈ before, b.place = v.place)
    (hholds : ∀ n ∈ ns, ∀ x, Holds t u n x → ¬ x.length ≤ l.maxDepth) :
    Explores t l u ns before [] w w := by
  refine ⟨by simpa using hlog,fun v => ?_,[],rfl,fun x => ?_⟩
  · simp only [List.not_mem_nil, false_and, exists_false, or_false, false_iff]
    rintro ⟨⟨n,hn,hv⟩,hle,hnew,_⟩
    obtain ⟨b,hb,heq⟩ := hopens n hn v hv hle
    exact hnew b hb heq
  · simp only [List.not_mem_nil, false_and, exists_false, or_false, false_iff]
    rintro ⟨⟨n,hn,hx⟩,hle⟩
    exact hholds n hn x hx hle

theorem Explores.inside {ns : List String} {new : List Visit} {w' : Walk}
    (h : Explores t l u ns before new w w') {v : Visit} (hv : v ∈ new) :
    ∃ n ∈ ns, ∃ s, v.path = u.path ++ n :: s := by
  induction hk : v.path.length using Nat.strong_induction_on generalizing v with
  | _ k ih =>
    rcases ((h.mem_iff v).mp hv).1 with ⟨n,hn,hopen⟩ | ⟨u',hu',n,hopen⟩
    · exact ⟨n,hn,[],hopen.path_eq⟩
    · have hlt : u'.path.length < k := by
        rw [← hk, hopen.path_eq, List.length_append]
        exact Nat.lt_succ_self _
      obtain ⟨m,hm,s,hs⟩ := ih _ hlt hu' rfl
      exact ⟨m,hm,s ++ [n],by rw [hopen.path_eq, hs, List.append_assoc, List.cons_append]⟩

theorem Explores.trans {ns ms : List String} {new new' : List Visit} {w' w'' : Walk}
    (h : Explores t l u ns before new w w')
    (h' : Explores t l u ms (before ++ new) new' w' w'')
    (hlt : ∀ n ∈ ns, ∀ m ∈ ms, n < m) :
    Explores t l u (ns ++ ms) before (new ++ new') w w'' := by
  -- what the later names can lead to comes after all that the first ones led to
  have hafter : ∀ b ∈ new, ∀ v,
      ((∃ m ∈ ms, Opens t l u m v) ∨ ∃ u' ∈ new', ∃ m, Opens t l u' m v) → b.path < v.path := by
    intro b hb v hv
    obtain ⟨n,hn,r,hr⟩ := h.inside hb
    have hlater : ∃ m ∈ ms, ∃ s, v.path = u.path ++ m :: s := by
      rcases hv with ⟨m,hm,hopen⟩ | ⟨u',hu',k,hopen⟩
      · exact ⟨m,hm,[],hopen.path_eq⟩
      · obtain ⟨m,hm,s,hs⟩ := h'.inside hu'
        exact ⟨m,hm,s ++ [k],by rw [hopen.path_eq, hs, List.append_assoc, List.cons_append]⟩
    obtain ⟨m,hm,s,hs⟩ := hlater
    rw [hr, hs]
    exact append_cons_lt (hlt n hn m hm) u.path r s
  obtain ⟨xs,hxs,hmem⟩ := h.found
  obtain ⟨ys,hys,hmem'⟩ := h'.found
  refine ⟨by simpa using h'.log,fun v => ?_,ys ++ xs,by rw [hys, hxs, List.append_assoc],?_⟩
  · simp only [List.mem_append]
    constructor
    · rintro (hv | hv)
      · obtain ⟨hfrom,hle,hnew,hfirst⟩ := (h.mem_iff v).mp hv
        refine ⟨?_,hle,hnew,?_⟩
        · rcases hfrom with ⟨n,hn,hopen⟩ | ⟨u',hu',hopen⟩
          · exact Or.inl ⟨n,Or.inl hn,hopen⟩
          · exact Or.inr ⟨u',Or.inl hu',hopen⟩
        · rintro b (hb | hb) heq
          · exact hfirst b hb heq
          · exact (hafter v hv b ((h'.mem_iff b).mp hb).1).not_gt
      · obtain ⟨hfrom,hle,hnew,hfirst⟩ := (h'.mem_iff v).mp hv
        refine ⟨?_,hle,fun b hb => hnew b (List.mem_append_left _ hb),?_⟩
        · rcases hfrom with ⟨n,hn,hopen⟩ | ⟨u',hu',hopen⟩
          · exact Or.inl ⟨n,Or.inr hn,hopen⟩
          · exact Or.inr ⟨u',Or.inr hu',hopen⟩
        · rintro b (hb | hb) heq
          · exact absurd heq (hnew b (List.mem_append_right _ hb))
          · exact hfirst b hb heq
    · rintro ⟨hfrom,hle,hnew,hfirst⟩
      have hsplit : ((∃ n ∈ ns, Opens t l u n v) ∨ ∃ u' ∈ new, ∃ n, Opens t l u' n v) ∨
          ((∃ m ∈ ms, Opens t l u m v) ∨ ∃ u' ∈ new', ∃ m, Opens t l u' m v) := by
        rcases hfrom with ⟨n,hn | hn,hopen⟩ | ⟨u',hu' | hu',hopen⟩
        · exact Or.inl (Or.inl ⟨n,hn,hopen⟩)
        · exact Or.inr (Or.inl ⟨n,hn,hopen⟩)
        · exact Or.inl (Or.inr ⟨u',hu',hopen⟩)
        · exact Or.inr (Or.inr ⟨u',hu',hopen⟩)
      rcases hsplit with hfrom | hfrom
      · exact Or.inl ((h.mem_iff v).mpr ⟨hfrom,hle,hnew,fun b hb => hfirst b (Or.inl hb)⟩)
      · refine Or.inr ((h'.mem_iff v).mpr ⟨hfrom,hle,?_,fun b hb => hfirst b (Or.inr hb)⟩)
        intro b hb heq
        rcases List.mem_append.mp hb with hb | hb
        · exact hnew b hb heq
        · exact hfirst b (Or.inl hb) heq (hafter b hb v hfrom)
  · intro x
    rw [List.mem_append, hmem, hmem']
    simp only [List.mem_append]
    grind

theorem Explores.enter {n : String} {v : Visit} {new : List Visit} {w' : Walk}
    {seen : List (List String)} (hopen : Opens t l u n v) (hle : v.path.length ≤ l.maxDepth)
    (hfresh : ∀ b ∈ before, b.place ≠ v.place)
    (h : Explores t l v (t.names v.place) (before ++ [v]) new { w with visited := seen } w') :
    Explores t l u [n] before (v :: new) w w' := by
  have hother : ∀ b ∈ new, v.place ≠ b.place := fun b hb =>
    ((h.mem_iff b).mp hb).2.2.1 v (List.mem_append_right _ (List.mem_singleton_self v))
  have hafter : ∀ b ∈ new, v.path < b.path := by
    intro b hb
    obtain ⟨m,_,s,hs⟩ := h.inside hb
    exact hs ▸ lt_append_cons v.path s m
  obtain ⟨xs,hxs,hmem⟩ := h.found
  refine ⟨by simpa using h.log,fun x => ?_,xs,hxs,?_⟩
  · simp only [List.mem_cons, List.not_mem_nil, or_false, exists_eq_left, exists_eq_or_imp,
      forall_eq_or_imp]
    constructor
    · rintro (rfl | hx)
      · refine ⟨Or.inl hopen,hle,hfresh,fun _ => lt_irrefl _,fun b hb heq => ?_⟩
        exact absurd heq.symm (hother b hb)
      · obtain ⟨hfrom,hlex,hnew,hfirst⟩ := (h.mem_iff x).mp hx
        refine ⟨Or.inr ?_,hlex,fun b hb => hnew b (List.mem_append_left _ hb),?_,hfirst⟩
        · rcases hfrom with ⟨m,_,hm⟩ | hfrom
          · exact Or.inl ⟨m,hm⟩
          · exact Or.inr hfrom
        · exact fun heq => absurd heq (hother x hx)
    · rintro ⟨hfrom,hlex,hnew,hv,hfirst⟩
      have hmem_new : ((∃ m ∈ t.names v.place, Opens t l v m x) ∨
          ∃ b ∈ new, ∃ m, Opens t l b m x) → v.path < x.path → x ∈ new := by
        intro hfrom hlt
        refine (h.mem_iff x).mpr ⟨hfrom,hlex,?_,hfirst⟩
        intro b hb heq
        rcases List.mem_append.mp hb with hb | hb
        · exact hnew b hb heq
        · exact hv (List.mem_singleton.mp hb ▸ heq) hlt
      rcases hfrom with hx | ⟨m,hx⟩ | ⟨b,hb,m,hx⟩
      · exact Or.inl (hx.eq hopen)
      · exact Or.inr (hmem_new (Or.inl ⟨m,hx.mem,hx⟩) hx.lt)
      · exact Or.inr (hmem_new (Or.inr ⟨b,hb,m,hx⟩) (lt_trans (hafter b hb) hx.lt))
  · intro x
    have hnames : (∃ m ∈ t.names v.place, Holds t v m x) ↔ ∃ m, Holds t v m x :=
      ⟨fun ⟨m,_,hm⟩ => ⟨m,hm⟩,fun ⟨m,hm⟩ => ⟨m,hm.mem,hm⟩⟩
    rw [hmem, hnames]
    simp [hopen.not_holds x]

/-- What searching an entered directory adds, with this bound on nesting. -/
def SearchExplores (t : FileTree) (l : Locator) (fuel : Nat) : Prop :=
  ∀ depth u before w, u.path.length + depth = l.maxDepth → Log t w before →
    t.entries.length + 2 ≤ fuel + before.length →
    ∃ new, Explores t l u (t.names u.place) before new w
      (walkDirectory t l fuel depth u.place u.path w)

theorem Log.snoc {w : Walk} {visits : List Visit} (h : Log t w visits) {v : Visit}
    (hd : t.isDirectoryAt v.place) (hfresh : ∀ b ∈ visits, b.place ≠ v.place) :
    Log t { w with visited := v.place :: w.visited } (visits ++ [v]) := by
  refine ⟨?_,?_,?_⟩
  · simp [h.visited]
  · rw [List.map_append, List.map_singleton, List.nodup_append']
    refine ⟨h.nodup,List.nodup_singleton _,fun p hp hv => ?_⟩
    obtain ⟨b,hb,rfl⟩ := List.mem_map.mp hp
    exact hfresh b hb (List.mem_singleton.mp hv)
  · intro b hb
    rcases List.mem_append.mp hb with hb | hb
    · exact h.directory b hb
    · exact List.mem_singleton.mp hb ▸ hd

theorem Explores.meet {n : String} {target : List String} (hlog : Log t w before)
    (hn : n ∈ t.names u.place) (hle : u.path.length < l.maxDepth)
    (hfollow : t.follow maxLinks u.place [n] = .ok target)
    (hfile : t.isDirectoryAt target = false) :
    Explores t l u [n] before [] w { w with found := (u.path ++ [n]) :: w.found } := by
  refine ⟨⟨by simpa using hlog.visited,by simpa using hlog.nodup,by simpa using hlog.directory⟩,
    fun v => ?_,[u.path ++ [n]],rfl,fun x => ?_⟩
  · simp only [List.not_mem_nil, List.mem_singleton, exists_eq_left, false_and, exists_false,
      or_false, false_iff]
    rintro ⟨hv,_⟩
    exact hv.not_holds _ ⟨hn,rfl,target,hfollow,hfile⟩
  · simp only [List.not_mem_nil, List.mem_singleton, exists_eq_left, false_and, exists_false,
      or_false]
    constructor
    · rintro rfl
      exact ⟨⟨hn,rfl,target,hfollow,hfile⟩,by simpa using Nat.succ_le_of_lt hle⟩
    · exact fun hx => hx.1.path_eq

theorem explores_visitEntry {fuel depth : Nat} (ih : SearchExplores t l fuel)
    (hdepth : u.path.length + (depth+1) = l.maxDepth) (hlog : Log t w before)
    (hfuel : t.entries.length + 2 ≤ fuel + 1 + before.length) {n : String}
    (hn : n ∈ t.names u.place) :
    ∃ new, Explores t l u [n] before new w
      (visitEntry t l fuel depth u.place u.path n w) := by
  unfold visitEntry
  cases hfollow : t.follow maxLinks u.place [n] with
  | error e =>
    refine ⟨[],Explores.nothing hlog ?_ ?_⟩
    · intro m hm v hv
      rw [List.mem_singleton.mp hm] at hv
      cases hfollow.symm.trans hv.follow_eq
    · intro m hm x hx
      rw [List.mem_singleton.mp hm] at hx
      obtain ⟨target,hok,_⟩ := hx.leads
      cases hfollow.symm.trans hok
  | ok target =>
    simp only
    by_cases hd : t.isDirectoryAt target
    · have hopens : ∀ m ∈ [n], ∀ v, Opens t l u m v → v = ⟨u.path ++ [n], target⟩ := by
        intro m hm v hv
        rw [List.mem_singleton.mp hm] at hv
        obtain ⟨path,place⟩ := v
        have hplace : place = target := hv.place_eq hfollow
        have hpath : path = u.path ++ [n] := hv.path_eq
        rw [hplace, hpath]
      have hholds : ∀ m ∈ [n], ∀ x, ¬ Holds t u m x := by
        intro m hm x hx
        rw [List.mem_singleton.mp hm] at hx
        rw [hx.not_directory hfollow] at hd
        exact Bool.noConfusion hd
      rw [if_pos hd]
      by_cases hex : l.excludes.isExcluded (Text.joined "/" (u.path ++ [n]))
      · rw [if_pos hex]
        refine ⟨[],Explores.nothing hlog ?_ fun m hm x hx => absurd hx (hholds m hm x)⟩
        intro m hm v hv
        have hallowed := hv.allowed
        rw [hopens m hm v hv, hex] at hallowed
        exact Bool.noConfusion hallowed
      · rw [if_neg hex]
        by_cases hseen : w.visited.contains target
        · rw [if_pos hseen]
          refine ⟨[],Explores.nothing hlog ?_ fun m hm x hx => absurd hx (hholds m hm x)⟩
          intro m hm v hv _
          rw [hopens m hm v hv]
          exact hlog.mem_visited.mp (List.contains_iff_mem.mp hseen)
        · rw [if_neg hseen]
          let v : Visit := ⟨u.path ++ [n], target⟩
          have hfresh : ∀ b ∈ before, b.place ≠ v.place := fun b hb heq =>
            hseen (List.contains_iff_mem.mpr (hlog.mem_visited.mpr ⟨b,hb,heq⟩))
          have hlength : v.path.length = u.path.length + 1 := by simp [v]
          obtain ⟨new,hnew⟩ := ih depth v (before ++ [v])
            { w with visited := target :: w.visited } (by omega) (hlog.snoc hd hfresh)
            (by simp only [List.length_append, List.length_singleton]; omega)
          have hopen : Opens t l u n v := ⟨hn,rfl,hfollow,hd,by simpa using hex⟩
          exact ⟨v :: new,Explores.enter hopen (by omega) hfresh hnew⟩
    · rw [if_neg hd]
      exact ⟨[],Explores.meet hlog hn (by omega) hfollow (by simpa using hd)⟩

theorem explores_walkEntries {fuel depth : Nat} (ih : SearchExplores t l fuel)
    (hdepth : u.path.length + (depth+1) = l.maxDepth) (ns : List String)
    (hns : ∀ n ∈ ns, n ∈ t.names u.place) (hsorted : ns.Pairwise (· < ·)) {before : List Visit}
    {w : Walk} (hlog : Log t w before)
    (hfuel : t.entries.length + 2 ≤ fuel + 1 + before.length) :
    ∃ new, Explores t l u ns before new w (walkEntries t l fuel depth u.place u.path ns w) := by
  induction ns generalizing before w with
  | nil =>
    rw [walkEntries]
    exact ⟨[],Explores.nothing hlog (by simp) (by simp)⟩
  | cons n ns ihn =>
    obtain ⟨hlt,hsorted⟩ := List.pairwise_cons.mp hsorted
    obtain ⟨new,hfirst⟩ := explores_visitEntry ih hdepth hlog hfuel (hns n List.mem_cons_self)
    obtain ⟨new',hrest⟩ := ihn (fun m hm => hns m (List.mem_cons_of_mem _ hm)) hsorted hfirst.log
      (by simp only [List.length_append]; omega)
    rw [walkEntries_cons]
    refine ⟨new ++ new',hfirst.trans hrest ?_⟩
    intro k hk m hm
    rw [List.mem_singleton.mp hk]
    exact hlt m hm

/-- The bound on nesting is never used up: with each directory that is entered it falls by one, and
no directory is entered twice. -/
theorem searchExplores (ht : t.WellFormed) (fuel : Nat) : SearchExplores t l fuel := by
  induction fuel with
  | zero =>
    intro depth u before w _ hlog hfuel
    have hle := hlog.length_le
    omega
  | succ fuel ih =>
    intro depth u before w hdepth hlog hfuel
    cases depth with
    | zero =>
      have hstop : walkDirectory t l (fuel+1) 0 u.place u.path w = w := by
        rw [walkDirectory]
        exact Nat.succ_ne_zero fuel
      rw [hstop]
      refine ⟨[],Explores.nothing hlog ?_ ?_⟩
      · intro n _ v hv hle
        have hlen := congrArg List.length hv.path_eq
        simp only [List.length_append, List.length_singleton] at hlen
        omega
      · intro n _ x hx
        have hlen := congrArg List.length hx.path_eq
        simp only [List.length_append, List.length_singleton] at hlen
        omega
    | succ depth =>
      rw [walkDirectory]
      exact explores_walkEntries ih (by omega) _ (fun _ hn => hn) (sorted_names ht _) hlog
        (by omega)

/-- The directories that a search enters: the root, and what a name opens in a directory that is
entered, if it lies deep enough and no earlier path leads to it. -/
structure Enters (t : FileTree) (l : Locator) (root : List String) (visits : List Visit) :
    Prop where
  mem_iff : ∀ v, v ∈ visits ↔ v = ⟨[], root⟩ ∨ (∃ u ∈ visits, ∃ n, Opens t l u n v) ∧
    v.path.length ≤ l.maxDepth ∧ ∀ b ∈ visits, b.place = v.place → ¬ b.path < v.path

variable {root : List String}

theorem Enters.root_mem {visits : List Visit} (h : Enters t l root visits) :
    ⟨[], root⟩ ∈ visits := (h.mem_iff _).mpr (Or.inl rfl)

/-- By induction on the way down from the root. -/
theorem Enters.induction {visits : List Visit} (h : Enters t l root visits) {P : Visit → Prop}
    (start : P ⟨[], root⟩)
    (step : ∀ u ∈ visits, ∀ n, ∀ v ∈ visits, Opens t l u n v → P u → P v) {v : Visit}
    (hv : v ∈ visits) : P v := by
  induction hk : v.path.length using Nat.strong_induction_on generalizing v with
  | _ k ih =>
    rcases (h.mem_iff v).mp hv with rfl | ⟨⟨u,hu,n,hopen⟩,_⟩
    · exact start
    · have hlt : u.path.length < k := by
        rw [← hk, hopen.path_eq, List.length_append]
        exact Nat.lt_succ_self _
      exact step u hu n v hv hopen (ih _ hlt hu rfl)

theorem Enters.length_le {visits : List Visit} (h : Enters t l root visits) {v : Visit}
    (hv : v ∈ visits) : v.path.length ≤ l.maxDepth := by
  rcases (h.mem_iff v).mp hv with rfl | ⟨_,hle,_⟩
  · exact Nat.zero_le _
  · exact hle

theorem exists_enters_and_mem_walk (ht : t.WellFormed) (hroot : t.isDirectoryAt root) :
    ∃ visits, Enters t l root visits ∧
      ∀ names, names ∈ l.walk t root ↔
        names.length ≤ l.maxDepth ∧ ∃ u ∈ visits, ∃ n, Holds t u n names := by
  let r : Visit := ⟨[], root⟩
  have hlog : Log t ⟨[root], []⟩ [r] := ⟨rfl,by simp,by simpa [r] using hroot⟩
  obtain ⟨new,h⟩ := searchExplores (l := l) ht (t.entries.length+1) l.maxDepth r [r] ⟨[root], []⟩
    (by simp [r]) hlog (by simp)
  have hnames : ∀ P : String → Prop, (∀ n, P n → n ∈ t.names r.place) →
      ((∃ n ∈ t.names r.place, P n) ↔ ∃ n, P n) :=
    fun P hP => ⟨fun ⟨n,_,hn⟩ => ⟨n,hn⟩,fun ⟨n,hn⟩ => ⟨n,hP n hn,hn⟩⟩
  refine ⟨r :: new,⟨fun v => ?_⟩,fun names => ?_⟩
  · rw [List.mem_cons, h.mem_iff, hnames _ fun n hn => hn.mem]
    simp only [List.mem_cons, List.not_mem_nil, or_false, exists_eq_or_imp, forall_eq,
      forall_eq_or_imp]
    refine or_congr_right (and_congr_right fun hfrom => and_congr_right fun _ =>
      and_congr_left fun _ => ?_)
    -- every other path is later than that of the root
    have hlt : r.path < v.path := by
      obtain ⟨u,n,hn⟩ : ∃ u n, Opens t l u n v := by
        rcases hfrom with ⟨n,hn⟩ | ⟨u,_,n,hn⟩
        · exact ⟨r,n,hn⟩
        · exact ⟨u,n,hn⟩
      rw [hn.path_eq]
      cases u.path with
      | nil => exact List.nil_lt_cons n []
      | cons m s => exact List.nil_lt_cons m (s ++ [n])
    exact ⟨fun hne heq => absurd heq hne,fun hfirst heq => hfirst heq hlt⟩
  · obtain ⟨xs,hxs,hmem⟩ := h.found
    have hwalk : l.walk t root = xs.reverse := by
      rw [walk, hxs, List.append_nil]
    rw [hwalk, List.mem_reverse, hmem, hnames _ fun n hn => hn.mem, and_comm]
    simp

end Workbench.Locator

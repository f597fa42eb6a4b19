import Mathlib.Logic.Function.Iterate
import Workbench.Proofs.Aliases
import Workbench.Proofs.Located
set_option autoImplicit false

/-! A search step by step, with the directories that it is in on a stack and no bound on its steps.
Links may lead anywhere, back to a directory above or out of the root. The search ends all the same,
since every directory is entered once, and under one path. -/

namespace Workbench.Locator
open FileTree

structure Frame where
  visit : Visit
  left : List String
  deriving DecidableEq, Repr

structure Traversal where
  /-- The innermost directory first. -/
  stack : List Frame
  entered : List Visit
  looks : List (Visit × String)
  found : List (List String)
  deriving DecidableEq, Repr

namespace Traversal

def start (t : FileTree) (root : List String) : Traversal :=
  ⟨[⟨⟨[],root⟩,t.names root⟩],[⟨[],root⟩],[],[]⟩

def hasEntered (s : Traversal) (place : List String) : Bool :=
  s.entered.any fun v => v.place == place

/-- A link that leads back to a directory which the search is in. -/
def closesCycle (t : FileTree) (s : Traversal) (u : Visit) (n : String) (target : List String) :
    Bool :=
  match t.entryAt? (u.place ++ [n]) with
  | some (.link _) => s.stack.any fun f => f.visit.place == target
  | _ => false

def enter (t : FileTree) (s : Traversal) (v : Visit) : Traversal :=
  { s with stack := ⟨v,t.names v.place⟩ :: s.stack, entered := s.entered ++ [v] }

def look (s : Traversal) (u : Visit) (n : String) (ns : List String) (rest : List Frame) :
    Traversal :=
  { s with stack := ⟨u,ns⟩ :: rest, looks := (u,n) :: s.looks }

def meet (t : FileTree) (l : Locator) (s : Traversal) (u : Visit) (n : String) : Traversal :=
  match t.follow maxLinks u.place [n] with
  | .error _ => s
  | .ok target =>
    let path := u.path ++ [n]
    if t.isDirectoryAt target then
      if s.closesCycle t u n target then s
      else if l.excludes.isExcluded (Text.joined "/" path) then s
      else if s.hasEntered target then s
      else s.enter t ⟨path,target⟩
    else { s with found := path :: s.found }

/-- Looks at the next name in the innermost directory, or leaves that directory if there is none or
if it lies too deep. -/
def step (t : FileTree) (l : Locator) (s : Traversal) : Traversal :=
  match s.stack with
  | [] => s
  | ⟨_,[]⟩ :: rest => { s with stack := rest }
  | ⟨u,n :: ns⟩ :: rest =>
    if l.maxDepth ≤ u.path.length then { s with stack := rest }
    else (s.look u n ns rest).meet t l u n

def after (t : FileTree) (l : Locator) (root : List String) (k : Nat) : Traversal :=
  (step t l)^[k] (start t root)

def walk (s : Traversal) : Walk := ⟨(s.entered.map Visit.place).reverse,s.found⟩

variable {t : FileTree} {l : Locator} {s : Traversal} {u : Visit} {n : String}

/-- No directory was entered twice, and the search is in directories and looks into directories that
it has entered. -/
structure Orderly (t : FileTree) (s : Traversal) : Prop where
  log : Log t s.walk s.entered
  current : ∀ f ∈ s.stack, f.visit ∈ s.entered
  looked : ∀ x ∈ s.looks, x.1 ∈ s.entered

/-- What a look comes to: nothing, something that is no directory, or a directory not entered
before, which is then to be searched. -/
inductive Meets (t : FileTree) (l : Locator) (s : Traversal) (u : Visit) (n : String) :
    Traversal → Prop
  | nothing (same : ∀ fuel depth, visitEntry t l fuel depth u.place u.path n s.walk = s.walk) :
      Meets t l s u n s
  | file (found : ∀ fuel depth, visitEntry t l fuel depth u.place u.path n s.walk =
        { s.walk with found := (u.path ++ [n]) :: s.walk.found }) :
      Meets t l s u n { s with found := (u.path ++ [n]) :: s.found }
  | directory {target : List String} (isDirectory : t.isDirectoryAt target)
      (fresh : ∀ b ∈ s.entered, b.place ≠ target)
      (searched : ∀ fuel depth, visitEntry t l fuel depth u.place u.path n s.walk =
        walkDirectory t l fuel depth target (u.path ++ [n])
          { s.walk with visited := target :: s.walk.visited }) :
      Meets t l s u n (s.enter t ⟨u.path ++ [n],target⟩)

theorem hasEntered_iff {place : List String} :
    s.hasEntered place ↔ ∃ v ∈ s.entered, v.place = place := by
  simp [hasEntered]

theorem hasEntered_iff_contains {place : List String} :
    s.hasEntered place ↔ s.walk.visited.contains place := by
  simp [hasEntered_iff, walk]

theorem hasEntered_of_closesCycle (hs : s.Orderly t) {target : List String}
    (h : s.closesCycle t u n target) : s.hasEntered target := by
  unfold closesCycle at h
  split at h
  · obtain ⟨f,hf,hplace⟩ := List.any_eq_true.mp h
    exact hasEntered_iff.mpr ⟨f.visit,hs.current f hf,beq_iff_eq.mp hplace⟩
  · cases h

theorem visitEntry_of_seen {target : List String} {w : Walk} {fuel depth : Nat}
    (hfollow : t.follow maxLinks u.place [n] = .ok target) (hd : t.isDirectoryAt target)
    (hseen : w.visited.contains target) :
    visitEntry t l fuel depth u.place u.path n w = w := by
  simp only [visitEntry, hfollow, hd, hseen, if_true, ite_self]

theorem meets (hs : s.Orderly t) (u : Visit) (n : String) : Meets t l s u n (s.meet t l u n) := by
  unfold meet
  cases hfollow : t.follow maxLinks u.place [n] with
  | error e => exact .nothing fun fuel depth => by simp only [visitEntry, hfollow]
  | ok target =>
    simp only
    split_ifs with hd hcycle hex hseen
    · have hseen := hasEntered_iff_contains.mp (hasEntered_of_closesCycle hs hcycle)
      exact .nothing fun _ _ => visitEntry_of_seen hfollow hd hseen
    · exact .nothing fun fuel depth => by simp only [visitEntry, hfollow, hd, hex, if_true]
    · exact .nothing fun _ _ =>
        visitEntry_of_seen hfollow hd (hasEntered_iff_contains.mp hseen)
    · have hfresh : ∀ b ∈ s.entered, b.place ≠ target :=
        fun b hb heq => hseen (hasEntered_iff.mpr ⟨b,hb,heq⟩)
      refine .directory hd hfresh fun fuel depth => ?_
      rw [hasEntered_iff_contains] at hseen
      simp only [visitEntry, hfollow, hd, hex, hseen, if_true, if_false, Bool.false_eq_true]
    · exact .file fun fuel depth => by
        simp only [visitEntry, hfollow, hd, if_false, Bool.false_eq_true]

theorem walk_enter (t : FileTree) (s : Traversal) (v : Visit) :
    (s.enter t v).walk = { s.walk with visited := v.place :: s.walk.visited } := by
  simp [enter, walk]

namespace Orderly

theorem of_start {root : List String} (hroot : t.isDirectoryAt root) : (start t root).Orderly t :=
  ⟨⟨rfl,List.nodup_singleton root,by simpa [start] using hroot⟩,by simp [start],by simp [start]⟩

theorem leave (h : s.Orderly t) {f : Frame} {rest : List Frame} (hstack : s.stack = f :: rest) :
    Orderly t { s with stack := rest } where
  log := h.log
  current := fun g hg => h.current g (hstack ▸ List.mem_cons_of_mem f hg)
  looked := h.looked

theorem look (h : s.Orderly t) {ns ms : List String} {rest : List Frame}
    (hstack : s.stack = ⟨u,ns⟩ :: rest) (n : String) :
    (s.look u n ms rest).Orderly t := by
  have hu : u ∈ s.entered := h.current ⟨u,ns⟩ (hstack ▸ List.mem_cons_self)
  refine ⟨h.log,?_,List.forall_mem_cons.mpr ⟨hu,h.looked⟩⟩
  exact List.forall_mem_cons.mpr ⟨hu,(h.leave hstack).current⟩

theorem meets (h : s.Orderly t) {s' : Traversal} (hmeets : Meets t l s u n s') : s'.Orderly t := by
  cases hmeets with
  | nothing _ => exact h
  | file _ => exact ⟨⟨h.log.visited,h.log.nodup,h.log.directory⟩,h.current,h.looked⟩
  | @directory target hd hfresh _ =>
    refine ⟨?_,?_,fun x hx => List.mem_append_left _ (h.looked x hx)⟩
    · rw [walk_enter]
      exact h.log.snoc hd hfresh
    · refine List.forall_mem_cons.mpr ⟨by simp [enter],fun f hf => ?_⟩
      exact List.mem_append_left _ (h.current f hf)

theorem step (h : s.Orderly t) : (s.step t l).Orderly t := by
  unfold Traversal.step
  split
  · exact h
  · next hstack => exact h.leave hstack
  · next hstack =>
    split_ifs
    · exact h.leave hstack
    · exact (h.look hstack _).meets (Traversal.meets (h.look hstack _) _ _)

theorem iterate (h : s.Orderly t) (k : Nat) : ((Traversal.step t l)^[k] s).Orderly t := by
  induction k with
  | zero => exact h
  | succ k ih =>
    rw [Function.iterate_succ_apply']
    exact ih.step

end Orderly

theorem length_entered_meets {s' : Traversal} (h : Meets t l s u n s') :
    s.entered.length ≤ s'.entered.length := by
  cases h <;> simp [enter]

theorem length_entered_step (hs : s.Orderly t) :
    s.entered.length ≤ (s.step t l).entered.length := by
  unfold step
  split
  · exact le_rfl
  · exact le_rfl
  · next u n ns rest hstack =>
    split_ifs
    · exact le_rfl
    · change (s.look u n ns rest).entered.length ≤ _
      exact length_entered_meets (meets (hs.look hstack n) u n)

/-- The search comes from one state to another. -/
def Comes (t : FileTree) (l : Locator) (s s' : Traversal) : Prop := ∃ k, (step t l)^[k] s = s'

namespace Comes

theorem refl (s : Traversal) : Comes t l s s := ⟨0,rfl⟩

theorem trans {s' s'' : Traversal} (h : Comes t l s s') (h' : Comes t l s' s'') :
    Comes t l s s'' := by
  obtain ⟨j,rfl⟩ := h
  obtain ⟨k,rfl⟩ := h'
  exact ⟨k + j,Function.iterate_add_apply _ _ _ _⟩

theorem head {s' : Traversal} (h : Comes t l (s.step t l) s') : Comes t l s s' :=
  trans ⟨1,rfl⟩ h

theorem orderly {s' : Traversal} (h : Comes t l s s') (hs : s.Orderly t) : s'.Orderly t := by
  obtain ⟨k,rfl⟩ := h
  exact hs.iterate k

theorem length_entered {s' : Traversal} (h : Comes t l s s') (hs : s.Orderly t) :
    s.entered.length ≤ s'.entered.length := by
  obtain ⟨k,rfl⟩ := h
  induction k with
  | zero => exact le_rfl
  | succ k ih =>
    rw [Function.iterate_succ_apply']
    exact ih.trans (length_entered_step (hs.iterate k))

end Comes

/-- The search of a directory comes to its end, with this bound on nesting, and has done what the
recursion does. -/
def Searches (t : FileTree) (l : Locator) (fuel : Nat) : Prop :=
  ∀ depth u rest s, s.stack = ⟨u,t.names u.place⟩ :: rest → s.Orderly t →
    u.path.length + depth = l.maxDepth → t.entries.length + 2 ≤ fuel + s.entered.length →
    ∃ s', Comes t l s s' ∧ s'.stack = rest ∧
      s'.walk = walkDirectory t l fuel depth u.place u.path s.walk

theorem comes_visitEntry {fuel depth : Nat} (ih : Searches t l fuel)
    (hdepth : u.path.length + (depth + 1) = l.maxDepth) {ns : List String} {rest : List Frame}
    (hstack : s.stack = ⟨u,n :: ns⟩ :: rest) (hs : s.Orderly t)
    (hfuel : t.entries.length + 2 ≤ fuel + 1 + s.entered.length) :
    ∃ s', Comes t l s s' ∧ s'.stack = ⟨u,ns⟩ :: rest ∧
      s'.walk = visitEntry t l fuel depth u.place u.path n s.walk := by
  have hlook : (s.look u n ns rest).Orderly t := hs.look hstack n
  obtain ⟨s',hs'⟩ : ∃ s', s' = s.step t l := ⟨_,rfl⟩
  have hstep : s' = (s.look u n ns rest).meet t l u n := by
    rw [hs', step, hstack]
    exact if_neg (by omega)
  have hmeets : Meets t l (s.look u n ns rest) u n s' := hstep ▸ meets hlook u n
  have hhead : ∀ s'', Comes t l s' s'' → Comes t l s s'' := fun _ h => .head (hs' ▸ h)
  have hlater : s'.Orderly t := hlook.meets hmeets
  cases hmeets with
  | nothing same => exact ⟨_,hhead _ (.refl _),rfl,(same fuel depth).symm⟩
  | file found => exact ⟨_,hhead _ (.refl _),rfl,(found fuel depth).symm⟩
  | @directory target hd hfresh searched =>
    obtain ⟨s'',hcomes,hback,hwalk⟩ := ih depth ⟨u.path ++ [n],target⟩ (⟨u,ns⟩ :: rest) _ rfl hlater
      (by simp only [List.length_append, List.length_singleton]; omega)
      (by simp only [enter, look, List.length_append, List.length_singleton]; omega)
    refine ⟨s'',hhead _ hcomes,hback,?_⟩
    rw [hwalk, walk_enter]
    exact (searched fuel depth).symm

theorem comes_walkEntries {fuel depth : Nat} (ih : Searches t l fuel)
    (hdepth : u.path.length + (depth + 1) = l.maxDepth) (ns : List String) {rest : List Frame}
    (hstack : s.stack = ⟨u,ns⟩ :: rest) (hs : s.Orderly t)
    (hfuel : t.entries.length + 2 ≤ fuel + 1 + s.entered.length) :
    ∃ s', Comes t l s s' ∧ s'.stack = rest ∧
      s'.walk = walkEntries t l fuel depth u.place u.path ns s.walk := by
  induction ns generalizing s with
  | nil =>
    refine ⟨{ s with stack := rest },.head ?_,rfl,by rw [walkEntries]; rfl⟩
    rw [step, hstack]
    exact .refl _
  | cons n ns ihn =>
    obtain ⟨s',hcomes,hstack',hwalk⟩ := comes_visitEntry ih hdepth hstack hs hfuel
    have hlonger := hcomes.length_entered hs
    obtain ⟨s'',hcomes',hback,hwalk'⟩ := ihn hstack' (hcomes.orderly hs) (by omega)
    refine ⟨s'',hcomes.trans hcomes',hback,?_⟩
    rw [hwalk', hwalk, walkEntries_cons]

/-- The bound falls by one with each directory that is entered, and none is entered twice. -/
theorem searches (t : FileTree) (l : Locator) (fuel : Nat) : Searches t l fuel := by
  induction fuel with
  | zero =>
    intro depth u rest s _ hs _ hfuel
    have hle := hs.log.length_le
    omega
  | succ fuel ih =>
    intro depth u rest s hstack hs hdepth hfuel
    cases depth with
    | zero =>
      have hstop : walkDirectory t l (fuel + 1) 0 u.place u.path s.walk = s.walk := by
        rw [walkDirectory]
        exact Nat.succ_ne_zero fuel
      refine ⟨{ s with stack := rest },.head ?_,rfl,hstop.symm⟩
      rw [step, hstack]
      cases t.names u.place with
      | nil => exact .refl _
      | cons n ns =>
        simp only [if_pos (show l.maxDepth ≤ u.path.length by omega)]
        exact .refl _
    | succ depth =>
      rw [walkDirectory]
      exact comes_walkEntries ih hdepth _ hstack hs (by omega)

theorem iterate_of_stack_nil (h : s.stack = []) (k : Nat) : (step t l)^[k] s = s := by
  refine Function.iterate_fixed ?_ k
  rw [step, h]

theorem exists_end {root : List String} (hroot : t.isDirectoryAt root) :
    ∃ k, ∀ m, k ≤ m →
      (after t l root m).stack = [] ∧ (after t l root m).found.reverse = l.walk t root := by
  obtain ⟨s',⟨k,hk⟩,hstack,hwalk⟩ := searches t l (t.entries.length + 1) l.maxDepth ⟨[],root⟩ []
    (start t root) rfl (.of_start hroot) (Nat.zero_add _) (by simp [start])
  refine ⟨k,fun m hm => ?_⟩
  have hafter : after t l root m = s' := by
    obtain ⟨j,rfl⟩ := Nat.exists_eq_add_of_le' hm
    rw [after, Function.iterate_add_apply, hk, iterate_of_stack_nil hstack]
  rw [hafter]
  exact ⟨hstack,congrArg (fun w => w.found.reverse) hwalk⟩

theorem looks_agree {root : List String} (hroot : t.isDirectoryAt root) (k : Nat) :
    ∀ x ∈ (after t l root k).looks, ∀ y ∈ (after t l root k).looks,
      x.1.place = y.1.place → x.1.path = y.1.path := by
  have hs : (after t l root k).Orderly t := (Orderly.of_start hroot).iterate k
  intro x hx y hy hplace
  rw [List.inj_on_of_nodup_map hs.log.nodup (hs.looked x hx) (hs.looked y hy) hplace]

end Traversal

/-- What the names of a directory add stands behind them, each path after those met before it. -/
def AddsInOrder (above ns : List String) (w w' : Walk) : Prop :=
  ∃ xs, w'.found = xs ++ w.found ∧ xs.Pairwise (· > ·) ∧
    ∀ x ∈ xs, ∃ n ∈ ns, ∃ s, x = above ++ n :: s

section

variable {t : FileTree} {l : Locator} {above : List String} {n : String}

theorem AddsInOrder.nothing {ns : List String} {w w' : Walk} (h : w'.found = w.found) :
    AddsInOrder above ns w w' :=
  ⟨[],h,List.Pairwise.nil,by simp⟩

theorem AddsInOrder.cons {ns : List String} {w w' w'' : Walk} (h : AddsInOrder above [n] w w')
    (h' : AddsInOrder above ns w' w'') (hlt : ∀ m ∈ ns, n < m) :
    AddsInOrder above (n :: ns) w w'' := by
  obtain ⟨xs,hxs,hsorted,hbehind⟩ := h
  obtain ⟨ys,hys,hsorted',hbehind'⟩ := h'
  refine ⟨ys ++ xs,by rw [hys, hxs, List.append_assoc],?_,fun x hx => ?_⟩
  · refine List.pairwise_append.mpr ⟨hsorted',hsorted,fun y hy x hx => ?_⟩
    obtain ⟨m,hm,r,rfl⟩ := hbehind' y hy
    obtain ⟨k,hk,s,rfl⟩ := hbehind x hx
    rw [List.mem_singleton.mp hk]
    exact append_cons_lt (hlt m hm) above s r
  · rcases List.mem_append.mp hx with hx | hx
    · obtain ⟨m,hm,r,rfl⟩ := hbehind' x hx
      exact ⟨m,List.mem_cons_of_mem n hm,r,rfl⟩
    · obtain ⟨m,hm,r,rfl⟩ := hbehind x hx
      exact ⟨m,List.mem_cons.mpr (.inl (List.mem_singleton.mp hm)),r,rfl⟩

theorem AddsInOrder.below {ns : List String} {w w' : Walk}
    (h : AddsInOrder (above ++ [n]) ns w w') : AddsInOrder above [n] w w' := by
  obtain ⟨xs,hxs,hsorted,hbehind⟩ := h
  refine ⟨xs,hxs,hsorted,fun x hx => ?_⟩
  obtain ⟨m,_,s,rfl⟩ := hbehind x hx
  exact ⟨n,List.mem_singleton_self n,m :: s,by rw [List.append_assoc, List.singleton_append]⟩

theorem addsInOrder_walkDirectory (ht : t.WellFormed) (fuel : Nat) :
    ∀ depth real above w, AddsInOrder above (t.names real) w
      (walkDirectory t l fuel depth real above w) := by
  induction fuel with
  | zero =>
    intro depth real above w
    rw [walkDirectory]
    exact .nothing rfl
  | succ fuel ih =>
    have hentry : ∀ depth real above n w,
        AddsInOrder above [n] w (visitEntry t l fuel depth real above n w) := by
      intro depth real above n w
      unfold visitEntry
      split
      · exact .nothing rfl
      · split_ifs
        · exact .nothing rfl
        · exact .nothing rfl
        · exact (ih depth _ (above ++ [n]) _).below
        · exact ⟨[above ++ [n]],rfl,List.pairwise_singleton _ _,by simp⟩
    intro depth real above w
    cases depth with
    | zero =>
      rw [walkDirectory]
      · exact .nothing rfl
      · exact Nat.succ_ne_zero fuel
    | succ depth =>
      rw [walkDirectory]
      have hsorted := sorted_names ht real
      generalize t.names real = ns at hsorted
      induction ns generalizing w with
      | nil =>
        rw [walkEntries]
        exact .nothing rfl
      | cons n ns ihn =>
        obtain ⟨hlt,hsorted⟩ := List.pairwise_cons.mp hsorted
        rw [walkEntries_cons]
        exact (hentry depth real above n w).cons (ihn _ hsorted) hlt

theorem pairwise_walk (ht : t.WellFormed) (root : List String) :
    (l.walk t root).Pairwise (· < ·) := by
  obtain ⟨xs,hxs,hsorted,_⟩ :=
    addsInOrder_walkDirectory (l := l) ht (t.entries.length + 1) l.maxDepth root [] ⟨[root],[]⟩
  rw [walk, hxs, List.append_nil, List.pairwise_reverse]
  exact hsorted

end

/-- A path below the root leads to something that is no directory, not too far down and through no
directory that is excluded, and a known pattern fits it. -/
structure Reports (t : FileTree) (root : List String) (maxDepth : Nat) (extra : List String)
    (names : List String) (e : CatalogEntry) : Prop where
  ne_nil : names ≠ []
  length_le : names.length ≤ maxDepth
  leads : ∃ place, leadsTo t root names = .ok place ∧ t.isDirectoryAt place = false
  searched : ∀ above below, names = above ++ below → above ≠ [] → below ≠ [] →
    ¬ ExcludeRules.Excludes extra above
  known : e ∈ Catalog.entries
  fits : e.Fits (Text.joined "/" names)

variable {t : FileTree} {l : Locator} {root : List String} {maxDepth : Nat} {extra : List String}

theorem isName_of_mem_names (ht : t.WellFormed) {place : List String} {n : String}
    (h : n ∈ t.names place) : Path.IsName n :=
  named_of_entry ht (mem_names.mp h) n (by simp)

theorem Enters.named (ht : t.WellFormed) {visits : List Visit} (h : Enters t l root visits)
    {v : Visit} (hv : v ∈ visits) : ∀ n ∈ v.path, Path.IsName n := by
  refine h.induction (P := fun v => ∀ n ∈ v.path, Path.IsName n) (by simp) ?_ hv
  intro u _ n v _ hopen ih
  rw [hopen.path_eq]
  exact List.forall_mem_append.mpr
    ⟨ih,List.forall_mem_singleton.mpr (isName_of_mem_names ht hopen.mem)⟩

theorem Enters.allowed {visits : List Visit} (h : Enters t l root visits) {v : Visit}
    (hv : v ∈ visits) : ∀ above below, v.path = above ++ below → above ≠ [] →
      l.excludes.isExcluded (Text.joined "/" above) = false := by
  refine h.induction (P := fun v => ∀ above below, v.path = above ++ below → above ≠ [] →
    l.excludes.isExcluded (Text.joined "/" above) = false) ?_ ?_ hv
  · intro above below heq hne
    exact absurd (List.append_eq_nil_iff.mp heq.symm).1 hne
  · intro u _ n v _ hopen ih above below heq hne
    rcases List.eq_nil_or_concat' below with rfl | ⟨below,m,rfl⟩
    · rw [List.append_nil] at heq
      exact heq ▸ hopen.allowed
    · rw [hopen.path_eq, ← List.append_assoc] at heq
      exact ih above below (List.append_inj' heq rfl).1 hne

theorem named_of_mem_walk (ht : t.WellFormed) (hroot : t.isDirectoryAt root) {names : List String}
    (h : names ∈ l.walk t root) : names ≠ [] ∧ ∀ n ∈ names, Path.IsName n := by
  obtain ⟨visits,hvisits,hmem⟩ := exists_enters_and_mem_walk (l := l) ht hroot
  obtain ⟨_,u,hu,n,hholds⟩ := (hmem names).mp h
  rw [hholds.path_eq]
  refine ⟨by simp,List.forall_mem_append.mpr ⟨hvisits.named ht hu,?_⟩⟩
  exact List.forall_mem_singleton.mpr (isName_of_mem_names ht hholds.mem)

theorem reports_of_mem_walk (hl : make maxDepth extra = .ok l) (ht : t.WellFormed)
    (hroot : t.isDirectoryAt root) {names : List String} (h : names ∈ l.walk t root)
    {e : CatalogEntry} (he : e ∈ l.matching (Text.joined "/" names)) :
    Reports t root maxDepth extra names e := by
  obtain ⟨rfl,hpatterns,hrules⟩ := make_eq_ok_iff.mp hl
  obtain ⟨hknown,hfits⟩ := (mem_matching hpatterns).mp he
  obtain ⟨hne,hnamed⟩ := named_of_mem_walk ht hroot h
  obtain ⟨visits,hvisits,hmem⟩ := exists_enters_and_mem_walk (l := l) ht hroot
  obtain ⟨hle,u,hu,n,hholds⟩ := (hmem names).mp h
  refine ⟨hne,hle,?_,?_,hknown,hfits⟩
  · obtain ⟨place,hfollow,hfile⟩ := hholds.leads
    rw [hholds.path_eq, leadsTo_snoc (hvisits.leadsTo_eq hu) n]
    exact ⟨place,hfollow,hfile⟩
  · intro above below heq habove hbelow
    have hnames : ∀ n ∈ above, Path.IsName n :=
      fun n hn => hnamed n (heq ▸ List.mem_append_left below hn)
    rw [← ExcludeRules.isExcluded_iff hrules hnames habove, Bool.not_eq_true]
    obtain ⟨below,m,rfl⟩ := (List.eq_nil_or_concat' below).resolve_left hbelow
    rw [hholds.path_eq, ← List.append_assoc] at heq
    exact hvisits.allowed hu above below (List.append_inj' heq rfl).1 habove

/-- Whatever the links and however deep it may look, a search below a directory ends. It looks into
no directory by two paths, and reports what is no directory, lies within the depth and below no
excluded directory, and fits a known pattern, in strict order of path and pattern. -/
theorem search_ends_and_reports (ht : t.WellFormed) {cwd : List String} {path : String}
    (hpath : t.resolve cwd path = .ok root) (hroot : t.isDirectoryAt root)
    (hl : make maxDepth extra = .ok l) :
    (∃ k, ∀ m, k ≤ m → (Traversal.after t l root m).stack = [] ∧
      (Traversal.after t l root m).found.reverse = l.walk t root) ∧
    (∀ k, ∀ x ∈ (Traversal.after t l root k).looks, ∀ y ∈ (Traversal.after t l root k).looks,
      x.1.place = y.1.place → x.1.path = y.1.path) ∧
    ∃ files, l.locate t cwd path = .ok files ∧ files.Pairwise Ascends ∧
      ∀ f ∈ files, ∃ names ∈ l.walk t root, ∃ e,
        f = ⟨root ++ names,Text.joined "/" names,e⟩ ∧ Reports t root maxDepth extra names e := by
  refine ⟨Traversal.exists_end hroot,Traversal.looks_agree hroot,l.locateIn t root,?_,?_,?_⟩
  · exact locate_eq_ok_iff.mpr ⟨root,hpath,hroot,rfl⟩
  · exact ascends_locateIn hl ((pairwise_walk ht root).imp ne_of_lt)
      fun _ => named_of_mem_walk ht hroot
  · intro f hf
    obtain ⟨names,hnames,e,he,rfl⟩ := mem_locateIn_iff.mp hf
    exact ⟨names,hnames,e,rfl,reports_of_mem_walk hl ht hroot hnames he⟩

def looped : FileTree :=
  ⟨[(["w"],.directory),(["w","loop"],.link "."),(["w","tox.ini"],.file [] false),
    (["w","up"],.link "..")]⟩

theorem walk_looped (hl : make 3 [] = .ok l) : l.walk looped ["w"] = [["tox.ini"]] := by
  have hdepth : l.maxDepth = 3 := (make_eq_ok_iff.mp hl).1
  have hlength : looped.entries.length = 4 := rfl
  have hnames : looped.names ["w"] = ["loop","tox.ini","up"] ∧ looped.names [] = ["w"] := by decide
  have hdirectory : looped.isDirectoryAt ["w"] ∧ looped.isDirectoryAt [] ∧
      looped.isDirectoryAt ["w","tox.ini"] = false := by decide
  have hentries : looped.entryAt? ["w"] = some .directory ∧
      looped.entryAt? ["w","loop"] = some (.link ".") ∧
      looped.entryAt? ["w","tox.ini"] = some (.file [] false) ∧
      looped.entryAt? ["w","up"] = some (.link "..") := by decide
  have hpieces : Path.pieces "." = ["."] ∧ Path.pieces ".." = [".."] := by decide
  have hrelative : Path.isAbsolute "." = false ∧ Path.isAbsolute ".." = false := by decide
  have hshort : isTooLong "w" = false ∧ isTooLong "loop" = false ∧ isTooLong "tox.ini" = false ∧
      isTooLong "up" = false := by decide
  simp [walk, walkDirectory, walkEntries, follow, maxLinks, *]
  -- whether or not the directory above is excluded, the workspace is not entered again from there
  split_ifs <;> rfl

theorem search_ends_and_reports_looped :
    looped.WellFormed ∧ looped.resolve ["w"] "." = .ok ["w"] ∧ looped.isDirectoryAt ["w"] ∧
      ∃ l, make 3 [] = .ok l ∧
        (∃ k, ∀ m, k ≤ m → (Traversal.after looped l ["w"] m).stack = [] ∧
          (Traversal.after looped l ["w"] m).found = [["tox.ini"]]) ∧
        ∃ files, l.locate looped ["w"] "." = .ok files ∧ files.Pairwise Ascends ∧
          ∃ f ∈ files, f.relative = "tox.ini" := by
  have hwell : looped.WellFormed := by decide +kernel
  have hroot : looped.isDirectoryAt ["w"] := by decide +kernel
  have hpath : looped.resolve ["w"] "." = .ok ["w"] := by
    have hpieces : Path.pieces "." = ["."] := by decide
    simp [resolve, hpieces, follow, hroot, Path.isAbsolute]
  obtain ⟨l,hl⟩ := exists_make 3 (show ExcludeRules.Valid [] by decide +kernel)
  obtain ⟨⟨k,hend⟩,_,files,hfiles,hsorted,_⟩ := search_ends_and_reports hwell hpath hroot hl
  refine ⟨hwell,hpath,hroot,l,hl,⟨k,fun m hm => ?_⟩,files,hfiles,hsorted,?_⟩
  · obtain ⟨hstack,hfound⟩ := hend m hm
    rw [walk_looped hl] at hfound
    exact ⟨hstack,List.reverse_eq_iff.mp hfound⟩
  · obtain ⟨root,hroot',_,rfl⟩ := locate_eq_ok_iff.mp hfiles
    cases hpath.symm.trans hroot'
    let e : CatalogEntry := ⟨"tox.ini",.ini,.legacy,[.lint,.test],none⟩
    have hentry : e ∈ l.matching (Text.joined "/" ["tox.ini"]) :=
      (mem_matching (make_eq_ok_iff.mp hl).2.1).mpr ⟨by decide +kernel,by decide +kernel⟩
    have hwalk : ["tox.ini"] ∈ l.walk looped ["w"] := by
      rw [walk_looped hl]
      exact List.mem_singleton_self _
    exact ⟨_,mem_locateIn_iff.mpr ⟨["tox.ini"],hwalk,e,hentry,rfl⟩,rfl⟩

end Workbench.Locator

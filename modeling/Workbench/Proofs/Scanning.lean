import Workbench.Text.Scan
set_option autoImplicit false

/-! What scanners make of a given input. A scanner takes a result from an input and leaves the rest,
or misses on it; where in the text the input begins makes no difference. The laws follow the ways
to put scanners together. -/

namespace Workbench.Scan

variable {α β : Type}

/-- The scanner succeeds on `input` with `a` and leaves `rest`. -/
def Takes (s : Scan α) (input : List Char) (a : α) (rest : List Char) : Prop :=
  ∀ o, ∃ o', s ⟨o,input⟩ = .done a ⟨o',rest⟩

/-- The scanner misses on `input`. -/
def Misses (s : Scan α) (input : List Char) : Prop := ∀ o, ∃ o', s ⟨o,input⟩ = .miss o'

variable {s t : Scan α} {a : α} {b : β} {i m r : List Char}

theorem Takes.unique {b : α} {q : List Char} (h : s.Takes i a r) (h' : s.Takes i b q) :
    a = b ∧ r = q := by
  obtain ⟨o,ho⟩ := h 0
  obtain ⟨o',ho'⟩ := h' 0
  cases ho.symm.trans ho'
  exact ⟨rfl,rfl⟩

theorem Takes.not_misses (h : s.Takes i a r) : ¬ s.Misses i := by
  intro hmiss
  obtain ⟨o,ho⟩ := h 0
  obtain ⟨o',ho'⟩ := hmiss 0
  cases ho.symm.trans ho'

theorem takes_pure (a : α) (i : List Char) : Takes (pure a) i a i := fun o => ⟨o,rfl⟩

theorem misses_fail (i : List Char) : Misses (fail : Scan α) i := fun o => ⟨o,rfl⟩

theorem Takes.bind {f : α → Scan β} (hs : s.Takes i a m) (hf : (f a).Takes m b r) :
    Takes (s >>= f) i b r := by
  intro o
  obtain ⟨o₁,h₁⟩ := hs o
  obtain ⟨o₂,h₂⟩ := hf o₁
  exact ⟨o₂,by simp only [Bind.bind, h₁, h₂]⟩

theorem Misses.bind {f : α → Scan β} (hs : s.Misses i) : Misses (s >>= f) i := by
  intro o
  obtain ⟨o',h⟩ := hs o
  exact ⟨o',by simp only [Bind.bind, h]⟩

theorem Takes.bind_misses {f : α → Scan β} (hs : s.Takes i a m) (hf : (f a).Misses m) :
    Misses (s >>= f) i := by
  intro o
  obtain ⟨o₁,h₁⟩ := hs o
  obtain ⟨o₂,h₂⟩ := hf o₁
  exact ⟨o₂,by simp only [Bind.bind, h₁, h₂]⟩

theorem Takes.map (f : α → β) (hs : s.Takes i a r) : (s.map f).Takes i (f a) r :=
  hs.bind (takes_pure (f a) r)

theorem Misses.map (f : α → β) (hs : s.Misses i) : (s.map f).Misses i := hs.bind

theorem Takes.must (hs : s.Takes i a r) : s.must.Takes i a r := by
  intro o
  obtain ⟨o',h⟩ := hs o
  exact ⟨o',by simp only [Scan.must, h]⟩

theorem Takes.or (hs : s.Takes i a r) : (s.or t).Takes i a r := by
  intro o
  obtain ⟨o',h⟩ := hs o
  exact ⟨o',by simp only [Scan.or, h]⟩

theorem Misses.or_takes (hs : s.Misses i) (ht : t.Takes i a r) : (s.or t).Takes i a r := by
  intro o
  obtain ⟨o₁,h₁⟩ := hs o
  obtain ⟨o₂,h₂⟩ := ht o
  exact ⟨o₂,by simp only [Scan.or, h₁, h₂]⟩

theorem Misses.or (hs : s.Misses i) (ht : t.Misses i) : (s.or t).Misses i := by
  intro o
  obtain ⟨o₁,h₁⟩ := hs o
  obtain ⟨o₂,h₂⟩ := ht o
  exact ⟨o₂,by simp only [Scan.or, h₁, h₂]⟩

theorem Takes.maybe (hs : s.Takes i a r) : s.maybe.Takes i (some a) r := by
  intro o
  obtain ⟨o',h⟩ := hs o
  exact ⟨o',by simp only [Scan.maybe, h]⟩

theorem Misses.maybe (hs : s.Misses i) : s.maybe.Takes i none i := by
  intro o
  obtain ⟨o',h⟩ := hs o
  exact ⟨o,by simp only [Scan.maybe, h]⟩

theorem Takes.check {f : α → Option β} (hs : s.Takes i a r) (hf : f a = some b) :
    (s.check f).Takes i b r := by
  intro o
  obtain ⟨o',h⟩ := hs o
  exact ⟨o',by simp only [Scan.check, h, hf]⟩

theorem Misses.check {f : α → Option β} (hs : s.Misses i) : (s.check f).Misses i := by
  intro o
  obtain ⟨o',h⟩ := hs o
  exact ⟨o',by simp only [Scan.check, h]⟩

theorem Takes.check_misses {f : α → Option β} (hs : s.Takes i a r) (hf : f a = none) :
    (s.check f).Misses i := by
  intro o
  obtain ⟨o',h⟩ := hs o
  exact ⟨o,by simp only [Scan.check, h, hf]⟩

theorem Takes.require {f : α → Option β} (hs : s.Takes i a r) (hf : f a = some b) :
    (s.require f).Takes i b r := by
  intro o
  obtain ⟨o',h⟩ := hs o
  exact ⟨o',by simp only [Scan.require, h, hf]⟩

theorem Misses.require {f : α → Option β} (hs : s.Misses i) : (s.require f).Misses i := by
  intro o
  obtain ⟨o',h⟩ := hs o
  exact ⟨o',by simp only [Scan.require, h]⟩

theorem Takes.peek (hs : s.Takes i a r) : s.peek.Takes i a i := by
  intro o
  obtain ⟨o',h⟩ := hs o
  exact ⟨o,by simp only [Scan.peek, h]⟩

/-- No wanted character stands first. -/
def Stops (wanted : Char → Bool) (i : List Char) : Prop := ∀ x ∈ i.head?, wanted x = false

variable {wanted : Char → Bool}

@[simp] theorem stops_nil (wanted : Char → Bool) : Stops wanted [] := by
  intro x hx
  cases hx

@[simp] theorem stops_cons {x : Char} : Stops wanted (x :: i) ↔ wanted x = false :=
  ⟨fun h => h x rfl,fun h y hy => by cases hy; exact h⟩

theorem takes_char {x : Char} (hx : wanted x) (r : List Char) :
    (char wanted).Takes (x :: r) x r := by
  intro o
  exact ⟨o + x.utf8Size,by simp only [char, hx, Cursor.advance, if_true]⟩

theorem Stops.misses_char (h : Stops wanted i) : (char wanted).Misses i := by
  intro o
  cases i with
  | nil => exact ⟨o,rfl⟩
  | cons x i => exact ⟨o,by simp [char, stops_cons.mp h]⟩

theorem takes_one (x : Char) (r : List Char) : (one x).Takes (x :: r) x r :=
  takes_char (by simp) r

theorem takes_anyChar (x : Char) (r : List Char) : anyChar.Takes (x :: r) x r := takes_char rfl r

theorem misses_one {x : Char} (h : Stops (· == x) i) : (one x).Misses i := h.misses_char

theorem takes_word (w r : List Char) : (word w).Takes (w ++ r) () r := by
  intro o
  refine ⟨o + w.foldl (fun n x => n + x.utf8Size) 0,?_⟩
  simp [word]

theorem misses_word {w : List Char} (h : ¬ w <+: i) : (word w).Misses i := by
  intro o
  refine ⟨o,?_⟩
  rw [word, if_neg]
  rwa [List.isPrefixOf_iff_prefix]

theorem takeWhile_go (xs : List Char) (hxs : ∀ x ∈ xs, wanted x) (hr : Stops wanted r) (o : Nat) :
    ∃ o', Cursor.takeWhile.go wanted o (xs ++ r) = (xs,⟨o',r⟩) := by
  induction xs generalizing o with
  | nil =>
    cases r with
    | nil => exact ⟨o,rfl⟩
    | cons y r => exact ⟨o,by simp [Cursor.takeWhile.go, stops_cons.mp hr]⟩
  | cons x xs ih =>
    obtain ⟨hx,hxs⟩ := List.forall_mem_cons.mp hxs
    obtain ⟨o',h⟩ := ih hxs (o + x.utf8Size)
    exact ⟨o',by simp [Cursor.takeWhile.go, hx, h]⟩

theorem takes_run (xs : List Char) (hxs : ∀ x ∈ xs, wanted x) (hr : Stops wanted r) :
    (run wanted).Takes (xs ++ r) xs r := by
  intro o
  obtain ⟨o',h⟩ := takeWhile_go xs hxs hr o
  exact ⟨o',by simp only [run, Cursor.takeWhile, h]⟩

theorem takes_run1 (xs : List Char) (hne : xs ≠ []) (hxs : ∀ x ∈ xs, wanted x)
    (hr : Stops wanted r) : (run1 wanted).Takes (xs ++ r) xs r := by
  intro o
  obtain ⟨o',h⟩ := takeWhile_go xs hxs hr o
  exact ⟨o',by simp [run1, Cursor.takeWhile, h, hne]⟩

theorem Stops.takes_run (h : Stops wanted i) : (run wanted).Takes i [] i :=
  Scan.takes_run [] (by simp) h

theorem Stops.misses_run1 (h : Stops wanted i) : (run1 wanted).Misses i := by
  intro o
  obtain ⟨o',h⟩ := takeWhile_go [] (by simp) h o
  exact ⟨o,by simp only [run1, Cursor.takeWhile, List.nil_append] at h ⊢; simp [h]⟩

theorem fixedDigits_misses {n : Nat} (h : ((i.take n).takeWhile Char.isDigit).length ≠ n) :
    (fixedDigits n).Misses i := fun o => ⟨o,by simp [fixedDigits, h]⟩

inductive Reps (s : Scan α) : List Char → List α → List Char → Prop where
  | stop {i : List Char} : s.Misses i → Reps s i [] i
  | more {i m r : List Char} {a : α} {as : List α} :
      s.Takes i a m → m.length < i.length → Reps s m as r → Reps s i (a :: as) r

theorem Reps.takes_manyUpTo {as : List α} (h : Reps s i as r) {n : Nat} (hn : i.length < n) :
    (s.manyUpTo n).Takes i as r := by
  induction h generalizing n with
  | @stop i hs =>
    obtain ⟨n,rfl⟩ := Nat.exists_eq_succ_of_ne_zero (Nat.ne_zero_of_lt hn)
    intro o
    obtain ⟨o',h⟩ := hs o
    exact ⟨o,by simp only [manyUpTo, h]⟩
  | more hs hlt _ ih =>
    obtain ⟨n,rfl⟩ := Nat.exists_eq_succ_of_ne_zero (Nat.ne_zero_of_lt hn)
    intro o
    obtain ⟨o₁,h₁⟩ := hs o
    obtain ⟨o₂,h₂⟩ := ih (n := n) (by omega) o₁
    exact ⟨o₂,by simp only [manyUpTo, h₁, h₂]⟩

theorem Reps.takes_many {as : List α} (h : Reps s i as r) : (many s).Takes i as r :=
  fun o => h.takes_manyUpTo (Nat.lt_succ_self _) o

theorem Reps.takes_sepBy1 {sep : Scan β} {as : List α} (hs : s.Takes i a m)
    (h : Reps (do let _ ← sep; s) m as r) : (s.sepBy1 sep).Takes i (a :: as) r :=
  hs.bind (h.takes_many.bind (takes_pure _ r))

theorem Reps.takes_sepBy {sep : Scan β} {as : List α} (hs : s.Takes i a m)
    (h : Reps (do let _ ← sep; s) m as r) : (s.sepBy sep).Takes i (a :: as) r :=
  (h.takes_sepBy1 hs).maybe.bind (takes_pure _ r)

theorem Misses.takes_sepBy {sep : Scan β} (hs : s.Misses i) : (s.sepBy sep).Takes i [] i := by
  have hone : (s.sepBy1 sep).Misses i := hs.bind
  exact hone.maybe.bind (takes_pure _ i)

theorem Reps.more_append (xs : List Char) {as : List α} (hne : xs ≠ [])
    (hs : s.Takes (xs ++ m) a m) (h : Reps s m as r) : Reps s (xs ++ m) (a :: as) r := by
  have hlength := List.length_pos_iff.mpr hne
  refine .more hs ?_ h
  rw [List.length_append]
  omega

theorem Reps.of_pieces (Behind : List Char → Prop) (pieces : List (List Char × α))
    (hp : ∀ p ∈ pieces, p.1 ≠ [] ∧ (∀ r, Behind (p.1 ++ r)) ∧
      ∀ r, Behind r → s.Takes (p.1 ++ r) p.2 r)
    (hr : s.Misses r) (hbehind : Behind r) :
    Reps s (pieces.flatMap (·.1) ++ r) (pieces.map (·.2)) r := by
  induction pieces with
  | nil => exact .stop hr
  | cons p ps ih =>
    obtain ⟨⟨hne,_,htakes⟩,hps⟩ := List.forall_mem_cons.mp hp
    have hnext : Behind (ps.flatMap (·.1) ++ r) := by
      cases ps with
      | nil => exact hbehind
      | cons q ps =>
        rw [List.flatMap_cons, List.append_assoc]
        exact (hps q List.mem_cons_self).2.1 _
    rw [List.flatMap_cons, List.append_assoc]
    exact .more_append p.1 hne (htakes _ hnext) (ih hps)

end Workbench.Scan

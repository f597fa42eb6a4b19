import Mathlib.Tactic.SplitIfs
import Mathlib.Tactic.Tauto
import Workbench.Settings
set_option autoImplicit false

namespace Workbench.Settings

def isPlain (c : Char) : Bool := c.isAlphanum || c == '-'

/-- A normal segment: a bare word, or any text in quotes. -/
inductive Segment where
  | bare (word : List Char) (word_ne_nil : word ≠ []) (plain : ∀ c ∈ word, isPlain c)
  | quoted (text : List Char)

namespace Segment

def chars : Segment → List Char
  | .bare w _ _ => w
  | .quoted u => '"' :: (u.flatMap escapeQuote ++ ['"'])

end Segment

theorem isPlain_hyphenated {c : Char} (h : isNameChar c) : isPlain (hyphenated c) := by
  unfold hyphenated
  split_ifs with hc
  · decide
  · simp only [isNameChar, Bool.or_eq_true] at h hc
    simp only [isPlain, Bool.or_eq_true]
    tauto

def segmentOf (s : List Char) : Segment :=
  if h : isIdentifier (Text.trim s) then
    .bare ((Text.trim s).map hyphenated)
      (by simp only [isIdentifier, Bool.and_eq_true] at h; simpa using h.1)
      (by
        intro c hc
        simp only [isIdentifier, Bool.and_eq_true] at h
        obtain ⟨d,hd,rfl⟩ := List.mem_map.mp hc
        exact isPlain_hyphenated (List.all_eq_true.mp h.2 d hd))
  else .quoted (Text.trim s)

theorem chars_segmentOf (s : List Char) : (segmentOf s).chars = normalizeChars s := by
  unfold segmentOf normalizeChars
  by_cases h : isIdentifier (Text.trim s) <;> simp [h, Segment.chars]

/-- What follows a segment. -/
def ahead : List Segment → List Char
  | [] => []
  | s :: ss => '.' :: (s.chars ++ ahead ss)

/-- What follows within quotes: the rest of the quoted text and all that comes after it. -/
def inside (u : List Char) (ss : List Segment) : List Char :=
  u.flatMap escapeQuote ++ '"' :: ahead ss

theorem join_chars (s : Segment) (ss : List Segment) :
    Text.join ['.'] (s.chars :: ss.map Segment.chars) = s.chars ++ ahead ss := by
  induction ss generalizing s with
  | nil => simp [Text.join, ahead]
  | cons t ss ih => simp [Text.join, ahead, ih t]

theorem quoted_ahead (u : List Char) (ss : List Segment) :
    (Segment.quoted u).chars ++ ahead ss = '"' :: inside u ss := by
  simp [Segment.chars, inside]

theorem inside_eq_cons {u : List Char} {ss : List Segment} {c : Char} {r : List Char}
    (h : inside u ss = c :: r) :
    (u = [] ∧ c = '"' ∧ r = ahead ss) ∨
    (∃ v, u = '"' :: v ∧ c = '\\' ∧ r = '"' :: inside v ss) ∨
    (∃ v, u = c :: v ∧ c ≠ '"' ∧ r = inside v ss) := by
  cases u with
  | nil =>
    simp only [inside, List.flatMap_nil, List.nil_append, List.cons.injEq] at h
    exact Or.inl ⟨rfl,h.1.symm,h.2.symm⟩
  | cons d v =>
    by_cases hd : d = '"'
    · subst hd
      simp only [inside, List.flatMap_cons, escapeQuote, beq_self_eq_true, if_true,
        List.cons_append, List.nil_append, List.cons.injEq] at h
      exact Or.inr (Or.inl ⟨v,rfl,h.1.symm,h.2.symm⟩)
    · simp only [inside, List.flatMap_cons, escapeQuote, beq_iff_eq, hd, if_false,
        List.cons_append, List.nil_append, List.cons.injEq] at h
      obtain ⟨rfl,h⟩ := h
      exact Or.inr (Or.inr ⟨v,rfl,hd,h.symm⟩)

theorem inside_ne_nil (u : List Char) (ss : List Segment) : inside u ss ≠ [] := by
  simp [inside]

/-- One reading cannot be outside quotes where another is inside: the quote that closes the one
opens the other, and never are both outside. The induction is on the text that is left. -/
theorem outside_ne_inside (n : Nat) (w : List Char) (ss : List Segment) (u : List Char)
    (ts : List Segment) (hw : ∀ c ∈ w, isPlain c) (hn : (w ++ ahead ss).length ≤ n) :
    w ++ ahead ss ≠ inside u ts := by
  induction n generalizing w ss u ts with
  | zero =>
    intro h
    have hnil := List.length_eq_zero_iff.mp (Nat.le_zero.mp hn)
    exact inside_ne_nil u ts (h.symm.trans hnil)
  | succ n ih =>
    intro h
    cases w with
    | cons c w =>
      have hc : isPlain c := hw c List.mem_cons_self
      rcases inside_eq_cons h.symm with ⟨_,rfl,_⟩ | ⟨_,_,rfl,_⟩ | ⟨v,_,_,hr⟩
      · exact absurd hc (by decide)
      · exact absurd hc (by decide)
      · exact ih w ss v ts (fun d hd => hw d (List.mem_cons_of_mem _ hd)) (by simpa using hn) hr
    | nil =>
      cases ss with
      | nil => exact inside_ne_nil u ts h.symm
      | cons s ss =>
        have hn' : (s.chars ++ ahead ss).length ≤ n := by simpa [ahead] using hn
        rcases inside_eq_cons h.symm with ⟨_,hc,_⟩ | ⟨_,_,hc,_⟩ | ⟨v,_,_,hr⟩
        · exact absurd hc (by decide)
        · exact absurd hc (by decide)
        cases s with
        | bare w hne hp => exact ih w ss v ts hp hn' hr
        | quoted x =>
          rw [quoted_ahead] at hr hn'
          -- here the two readings change places
          rcases inside_eq_cons hr.symm with ⟨_,_,hr⟩ | ⟨_,_,hc,_⟩ | ⟨_,_,hc,_⟩
          · have hlen : (ahead ts).length ≤ n := by
              rw [← hr]
              exact Nat.le_of_succ_le hn'
            exact ih [] ts x ss (by simp) hlen hr.symm
          · exact absurd hc (by decide)
          · exact hc rfl

theorem ahead_ne_inside (ss : List Segment) (u : List Char) (ts : List Segment) :
    ahead ss ≠ inside u ts := by
  have h := outside_ne_inside (ahead ss).length [] ss u ts (by simp) (by simp)
  simpa using h

theorem ahead_eq_cons {ss : List Segment} {c : Char} {r : List Char} (h : ahead ss = c :: r) :
    c = '.' := by
  cases ss with
  | nil => simp [ahead] at h
  | cons s ss => exact (List.cons.inj h).1.symm

theorem word_ahead_inj {w x : List Char} {ss ts : List Segment} (hw : ∀ c ∈ w, isPlain c)
    (hx : ∀ c ∈ x, isPlain c) (h : w ++ ahead ss = x ++ ahead ts) :
    w = x ∧ ahead ss = ahead ts := by
  induction w generalizing x with
  | nil =>
    cases x with
    | nil => exact ⟨rfl,h⟩
    | cons c x =>
      have hc := hx c List.mem_cons_self
      rw [ahead_eq_cons h] at hc
      exact absurd hc (by decide)
  | cons c w ih =>
    cases x with
    | nil =>
      have hc := hw c List.mem_cons_self
      rw [ahead_eq_cons h.symm] at hc
      exact absurd hc (by decide)
    | cons d x =>
      obtain ⟨rfl,htail⟩ := List.cons.inj h
      obtain ⟨rfl,hss⟩ := ih (fun d hd => hw d (List.mem_cons_of_mem _ hd))
        (fun d hd => hx d (List.mem_cons_of_mem _ hd)) htail
      exact ⟨rfl,hss⟩

/-- An escape that ended the quotes in another reading would leave that one outside and this one
inside. -/
theorem escape_ne_inside {u v : List Char} {ss ts : List Segment} :
    '"' :: inside u ss ≠ inside v ts := by
  intro h
  rcases inside_eq_cons h.symm with ⟨_,_,hr⟩ | ⟨_,_,hc,_⟩ | ⟨_,_,hc,_⟩
  · exact ahead_ne_inside ts u ss hr.symm
  · exact absurd hc (by decide)
  · exact hc rfl

theorem inside_inj {u v : List Char} {ss ts : List Segment} (h : inside u ss = inside v ts) :
    u = v ∧ ahead ss = ahead ts := by
  induction u generalizing v with
  | nil =>
    rcases inside_eq_cons h.symm with ⟨rfl,_,hr⟩ | ⟨_,_,hc,_⟩ | ⟨_,_,hc,_⟩
    · exact ⟨rfl,hr⟩
    · exact absurd hc (by decide)
    · exact absurd rfl hc
  | cons c u ih =>
    by_cases hc : c = '"'
    · subst hc
      have hu : inside ('"' :: u) ss = '\\' :: '"' :: inside u ss := rfl
      rcases inside_eq_cons (h.symm.trans hu) with ⟨_,hd,_⟩ | ⟨v,rfl,_,hr⟩ | ⟨_,_,_,hr⟩
      · exact absurd hd (by decide)
      · obtain ⟨rfl,hss⟩ := ih (List.cons.inj hr).2
        exact ⟨rfl,hss⟩
      · exact absurd hr escape_ne_inside
    · have hu : inside (c :: u) ss = c :: inside u ss := by simp [inside, escapeQuote, hc]
      rcases inside_eq_cons (h.symm.trans hu) with ⟨_,hd,_⟩ | ⟨_,_,_,hr⟩ | ⟨v,rfl,_,hr⟩
      · exact absurd hd hc
      · exact absurd hr.symm escape_ne_inside
      · obtain ⟨rfl,hss⟩ := ih hr
        exact ⟨rfl,hss⟩

theorem chars_ahead_inj {s t : Segment} {ss ts : List Segment}
    (h : s.chars ++ ahead ss = t.chars ++ ahead ts) : s = t ∧ ahead ss = ahead ts := by
  cases s with
  | bare w hw pw =>
    cases t with
    | bare x hx px =>
      obtain ⟨rfl,hss⟩ := word_ahead_inj pw px h
      exact ⟨rfl,hss⟩
    | quoted v =>
      obtain ⟨c,w,rfl⟩ := List.exists_cons_of_ne_nil hw
      rw [quoted_ahead] at h
      have hc := pw c List.mem_cons_self
      rw [(List.cons.inj h).1] at hc
      exact absurd hc (by decide)
  | quoted u =>
    rw [quoted_ahead] at h
    cases t with
    | bare x hx px =>
      obtain ⟨c,x,rfl⟩ := List.exists_cons_of_ne_nil hx
      have hc := px c List.mem_cons_self
      rw [← (List.cons.inj h).1] at hc
      exact absurd hc (by decide)
    | quoted v =>
      rw [quoted_ahead] at h
      obtain ⟨rfl,hss⟩ := inside_inj (List.cons.inj h).2
      exact ⟨rfl,hss⟩

theorem ahead_injective {ss ts : List Segment} (h : ahead ss = ahead ts) : ss = ts := by
  induction ss generalizing ts with
  | nil =>
    cases ts with
    | nil => rfl
    | cons t ts => simp [ahead] at h
  | cons s ss ih =>
    cases ts with
    | nil => simp [ahead] at h
    | cons t ts =>
      obtain ⟨rfl,hss⟩ := chars_ahead_inj (List.cons.inj h).2
      rw [ih hss]

theorem dottedKey_eq_joined (p : List String) :
    dottedKey p = Text.joined "." (p.map normalizeSegment) := by
  simp [dottedKey, Text.joined, normalizeSegment, Function.comp_def]

/-- The key of a path says its segments, up to how each of them is spelled. -/
theorem dottedKey_eq_iff {p q : List String} (hp : p ≠ []) (hq : q ≠ []) :
    dottedKey p = dottedKey q ↔ p.map normalizeSegment = q.map normalizeSegment := by
  refine ⟨fun h => ?_,fun h => by rw [dottedKey_eq_joined, dottedKey_eq_joined, h]⟩
  have hchars : ∀ r : List String, r.map (fun s => normalizeChars s.toList) =
      (r.map fun s => segmentOf s.toList).map Segment.chars := by
    intro r
    simp [chars_segmentOf]
  obtain ⟨k,p,rfl⟩ := List.exists_cons_of_ne_nil hp
  obtain ⟨l,q,rfl⟩ := List.exists_cons_of_ne_nil hq
  have hjoin := String.ofList_injective h
  simp only [hchars, List.map_cons, join_chars] at hjoin
  obtain ⟨hhead,htail⟩ := chars_ahead_inj hjoin
  have hsegments : (k :: p).map (fun s => segmentOf s.toList) =
      (l :: q).map fun s => segmentOf s.toList := by
    rw [List.map_cons, List.map_cons, hhead, ahead_injective htail]
  have hspelled : ∀ r : List String, r.map normalizeSegment =
      (r.map fun s => segmentOf s.toList).map fun s => String.ofList s.chars := by
    intro r
    simp [chars_segmentOf, normalizeSegment]
  rw [hspelled, hspelled, hsegments]

end Workbench.Settings

import Mathlib.Tactic.SplitIfs
import Workbench.Adapter
import Workbench.Format.Toml.Value
import Workbench.Proofs.Scanning
set_option autoImplicit false

namespace Workbench.Toml

open Scan

inductive Escaped : List Char → Char → Prop where
  | plain {c : Char} : isBasicChar c → Escaped [c] c
  | escape {w : List Char} {c : Char} :
      (∀ r, escapeSequence.Takes ('\\' :: (w ++ r)) c r) → Escaped ('\\' :: w) c

theorem isCommentChar_of_le {c : Char} (hlow : 32 ≤ c.toNat) (hdelete : c.toNat ≠ 127) :
    isCommentChar c := by
  simp [isCommentChar, hlow, hdelete]

def letters : List (Char × Char) :=
  [('b', '\x08'), ('f', '\x0c'), ('n', '\n'), ('r', '\r'), ('t', '\t'), ('\\', '\\'), ('"', '"')]

theorem escaped_letter {p : Char × Char} (hp : p ∈ letters) : Escaped ['\\', p.1] p.2 := by
  simp only [letters, List.mem_cons, List.not_mem_nil, or_false] at hp
  refine .escape fun r => (takes_one _ _).bind ((takes_anyChar _ _).bind ?_)
  rcases hp with rfl | rfl | rfl | rfl | rfl | rfl | rfl <;> exact takes_pure _ r

theorem escaped_escapeQuote {c : Char} (h : isBasicChar c ∨ c = '"') :
    Escaped (Settings.escapeQuote c) c := by
  unfold Settings.escapeQuote
  split_ifs with hquote
  · rw [beq_iff_eq] at hquote
    subst hquote
    exact escaped_letter (p := ('"', '"')) (by decide)
  · exact .plain (h.resolve_right fun hc => hquote (beq_iff_eq.mpr hc))

theorem takes_codePoint {c : Char} (hc : c.toNat < 32) (r : List Char) :
    (codePoint 4).Takes
      ('0' :: '0' :: Json.hexDigit (c.toNat / 16) :: Json.hexDigit (c.toNat % 16) :: r) c r := by
  have hread : ∀ n < 32,
      ['0', '0', Json.hexDigit (n / 16), Json.hexDigit (n % 16)].takeWhile isHex =
        ['0', '0', Json.hexDigit (n / 16), Json.hexDigit (n % 16)] ∧
      ['0', '0', Json.hexDigit (n / 16), Json.hexDigit (n % 16)].foldl
        (fun m d => m * 16 + hexValue d) 0 = n := by decide
  obtain ⟨hall,hvalue⟩ := hread c.toNat hc
  intro o
  refine ⟨o + 4,?_⟩
  simp only [codePoint, List.take_succ_cons, List.take_zero, hall, hvalue]
  simp [show c.toNat < 0xD800 by omega, Char.ofNat_toNat]

theorem escaped_control {c : Char} (hc : c.toNat < 32) :
    Escaped ['\\', 'u', '0', '0', Json.hexDigit (c.toNat / 16), Json.hexDigit (c.toNat % 16)] c :=
  .escape fun r =>
    (takes_one _ _).bind ((takes_anyChar _ _).bind (takes_codePoint hc r).must)

theorem escaped_escapeChar {c : Char} (h : c.toNat ≠ 127) : Escaped (Json.escapeChar c) c := by
  have hnat : ∀ {n : Nat}, (c.toNat == n) = true → c = Char.ofNat n := fun hn =>
    beq_iff_eq.mp hn ▸ (Char.ofNat_toNat c).symm
  unfold Json.escapeChar
  split_ifs with hquote hslash hfeed hreturn htab hback hform hlow
  · exact beq_iff_eq.mp hquote ▸ escaped_letter (p := ('"', '"')) (by decide)
  · exact beq_iff_eq.mp hslash ▸ escaped_letter (p := ('\\', '\\')) (by decide)
  · exact beq_iff_eq.mp hfeed ▸ escaped_letter (p := ('n', '\n')) (by decide)
  · exact beq_iff_eq.mp hreturn ▸ escaped_letter (p := ('r', '\r')) (by decide)
  · exact beq_iff_eq.mp htab ▸ escaped_letter (p := ('t', '\t')) (by decide)
  · exact hnat hback ▸ escaped_letter (p := ('b', '\x08')) (by decide)
  · exact hnat hform ▸ escaped_letter (p := ('f', '\x0c')) (by decide)
  · exact escaped_control hlow
  · have hbasic : isBasicChar c := by
      simp only [beq_iff_eq] at hquote hslash
      simp [isBasicChar, isCommentChar_of_le (Nat.le_of_not_lt hlow) h, hquote, hslash]
    exact .plain hbasic

theorem Escaped.stops_quote {w : List Char} {c : Char} (h : Escaped w c) (r : List Char) :
    Stops (· == '"') (w ++ r) := by
  cases h with
  | plain hc =>
    have hc : c ≠ '"' := by
      rintro rfl
      exact absurd hc (by decide)
    simpa using hc
  | escape _ => exact stops_cons.mpr (by decide)

theorem exists_reps_append {run i r : List Char} (hrun : ∀ c ∈ run, isBasicChar c)
    (hi : Stops isBasicChar i) {parts : List (List Char)} (h : Reps basicPart i parts r) :
    ∃ parts', Reps basicPart (run ++ i) parts' r ∧ parts'.flatten = run ++ parts.flatten := by
  by_cases hnil : run = []
  · exact ⟨parts,by rwa [hnil],by rw [hnil]; rfl⟩
  · exact ⟨run :: parts,h.more_append run hnil (takes_run1 run hnil hrun hi).or,rfl⟩

theorem exists_reps_quoted {esc : Char → List Char} {s : List Char}
    (hs : ∀ c ∈ s, Escaped (esc c) c) (run : List Char) (hrun : ∀ c ∈ run, isBasicChar c)
    (r : List Char) :
    ∃ parts, Reps basicPart (run ++ (s.flatMap esc ++ '"' :: r)) parts ('"' :: r) ∧
      parts.flatten = run ++ s := by
  -- a plain character only makes the run longer; what is no plain one ends it
  induction s generalizing run with
  | nil =>
    have hend : Stops isBasicChar ('"' :: r) := stops_cons.mpr (by decide)
    have hmiss : basicPart.Misses ('"' :: r) :=
      hend.misses_run1.or ((misses_one (stops_cons.mpr (by decide))).bind.map _)
    exact exists_reps_append hrun hend (.stop hmiss)
  | cons c s ih =>
    obtain ⟨hc,hs⟩ := List.forall_mem_cons.mp hs
    rw [List.flatMap_cons, List.append_assoc]
    generalize esc c = w at hc
    cases hc with
    | plain hc =>
      have hrun : ∀ x ∈ run ++ [c], isBasicChar x :=
        List.forall_mem_append.mpr ⟨hrun,by simpa using hc⟩
      obtain ⟨parts,hparts,hflat⟩ := ih hs _ hrun
      exact ⟨parts,by simpa using hparts,by simpa using hflat⟩
    | @escape w _ hc =>
      obtain ⟨parts,hparts,hflat⟩ := ih hs [] (by simp)
      have hslash : Stops isBasicChar ('\\' :: (w ++ (s.flatMap esc ++ '"' :: r))) :=
        stops_cons.mpr (by decide)
      have hmore : Reps basicPart ('\\' :: (w ++ (s.flatMap esc ++ '"' :: r))) ([c] :: parts)
          ('"' :: r) :=
        hparts.more_append ('\\' :: w) (List.cons_ne_nil _ _)
          (hslash.misses_run1.or_takes ((hc _).map _))
      obtain ⟨parts',hparts',hflat'⟩ := exists_reps_append hrun hslash hmore
      refine ⟨parts',hparts',?_⟩
      rw [hflat', List.flatten_cons, hflat]
      rfl

theorem takes_basicString {esc : Char → List Char} {s : List Char}
    (hs : ∀ c ∈ s, Escaped (esc c) c) (r : List Char) :
    basicString.Takes ('"' :: (s.flatMap esc ++ '"' :: r)) s r := by
  obtain ⟨parts,hparts,hflat⟩ := exists_reps_quoted hs [] (by simp) r
  rw [List.nil_append] at hflat
  subst hflat
  exact (takes_one _ _).bind (hparts.takes_many.bind ((takes_one _ _).must.bind (takes_pure _ r)))

theorem takes_stringValue {esc : Char → List Char} {s : List Char}
    (hs : ∀ c ∈ s, Escaped (esc c) c) {r : List Char} (hr : Stops (· == '"') r) :
    stringValue.Takes ('"' :: (s.flatMap esc ++ '"' :: r)) s r := by
  have hblock : ¬ ['"', '"', '"'] <+: '"' :: (s.flatMap esc ++ '"' :: r) := by
    intro h
    obtain ⟨_,h⟩ := List.cons_prefix_cons.mp h
    cases s with
    | nil =>
      obtain ⟨_,h⟩ := List.cons_prefix_cons.mp h
      obtain ⟨t,rfl⟩ := h
      exact absurd (stops_cons.mp hr) (by decide)
    | cons c s =>
      have hstops := (hs c List.mem_cons_self).stops_quote (s.flatMap esc ++ '"' :: r)
      rw [List.flatMap_cons, List.append_assoc] at h
      obtain ⟨t,ht⟩ := h
      rw [← ht] at hstops
      exact absurd (stops_cons.mp hstops) (by decide)
  have hmiss : blockString.Misses ('"' :: (s.flatMap esc ++ '"' :: r)) := (misses_word hblock).bind
  exact (hmiss.or_takes (takes_basicString hs r)).or.or

structure Names (w : List Char) (k : String) : Prop where
  head : ∃ c rest, w = c :: rest ∧ (isBareChar c ∨ c = '"')
  takes : ∀ {r}, Stops isBareChar r → simpleKey.Takes (w ++ r) k r

theorem Names.stops_blank {w : List Char} {k : String} (h : Names w k) (r : List Char) :
    Stops isSpaceOrTab (w ++ r) := by
  obtain ⟨c,rest,rfl,hc⟩ := h.head
  refine stops_cons.mpr (Bool.eq_false_iff.mpr fun hblank => ?_)
  simp only [isSpaceOrTab, Bool.or_eq_true, beq_iff_eq] at hblank
  rcases hblank with rfl | rfl <;> exact absurd hc (by decide)

theorem names_quoted {esc : Char → List Char} {s : List Char} (hs : ∀ c ∈ s, Escaped (esc c) c) :
    Names ('"' :: s.flatMap esc ++ ['"']) (String.ofList s) where
  head := ⟨'"',_,rfl,.inr rfl⟩
  takes {r} _ := by
    rw [List.append_assoc, List.cons_append]
    exact (takes_anyChar _ _).peek.bind ((takes_basicString hs r).bind (takes_pure _ r))

theorem names_bare {s : List Char} (hne : s ≠ []) (hs : ∀ c ∈ s, isBareChar c) :
    Names s (String.ofList s) := by
  obtain ⟨c,s,rfl⟩ := List.exists_cons_of_ne_nil hne
  have hc : isBareChar c := hs c List.mem_cons_self
  refine ⟨⟨c,s,rfl,.inl hc⟩,fun {r} hr => ?_⟩
  have hrun := takes_run1 (c :: s) hne hs hr
  refine (takes_anyChar _ _).peek.bind ?_
  split
  · exact absurd hc (by decide)
  · exact absurd hc (by decide)
  · exact hrun.bind (takes_pure _ r)

def segmentText (s : List Char) : List Char :=
  if Settings.isIdentifier (Text.trim s) then (Text.trim s).map Settings.hyphenated else Text.trim s

/-- A segment whose text is spelled out in its key: a name, or a text of characters that either
may stand in a string or are quotes. -/
def IsSpelled (s : List Char) : Prop :=
  Settings.isIdentifier (Text.trim s) ∨ ∀ c ∈ Text.trim s, isBasicChar c ∨ c = '"'

instance (s : List Char) : Decidable (IsSpelled s) :=
  decidable_of_iff (Settings.isIdentifier (Text.trim s) ∨
    (Text.trim s).all fun c => isBasicChar c || c == '"') (by simp [IsSpelled])

theorem isBareChar_hyphenated {c : Char} (h : Settings.isNameChar c) :
    isBareChar (Settings.hyphenated c) := by
  simp only [Settings.isNameChar, Bool.or_eq_true, beq_iff_eq] at h
  unfold Settings.hyphenated
  split_ifs with hmark
  · decide
  · simp only [Bool.or_eq_true, beq_iff_eq, not_or] at hmark
    have hc : c.isAlphanum ∨ c = '-' := by
      rcases h with ((h | h) | h) | h
      · exact .inl h
      · exact absurd h hmark.1
      · exact .inr h
      · exact absurd h hmark.2
    rcases hc with hc | rfl
    · simp [isBareChar, hc]
    · decide

theorem names_segment {s : List Char} (h : IsSpelled s) :
    Names (Settings.normalizeChars s) (String.ofList (segmentText s)) := by
  simp only [Settings.normalizeChars, segmentText]
  split_ifs with hname
  · have hparts : Text.trim s ≠ [] ∧ ∀ c ∈ Text.trim s, Settings.isNameChar c := by
      simpa [Settings.isIdentifier] using hname
    refine names_bare (by simpa using hparts.1) fun c hc => ?_
    obtain ⟨x,hx,rfl⟩ := List.mem_map.mp hc
    exact isBareChar_hyphenated (hparts.2 x hx)
  · exact names_quoted fun c hc => escaped_escapeQuote (h.resolve_left hname c hc)

theorem names_quote {k : String} (hk : ∀ c ∈ k.toList, c.toNat ≠ 127) :
    Names (Json.quote k.toList) k := by
  have h := names_quoted fun c hc => escaped_escapeChar (hk c hc)
  rwa [String.ofList_toList] at h

theorem isSpaceOrTab_single : ∀ c ∈ [' '], isSpaceOrTab c := fun _ hc =>
  List.mem_singleton.mp hc ▸ rfl

def keySegment : Scan String := do
  let _ ← blanks
  let k ← simpleKey
  let _ ← blanks
  pure k

theorem Names.takes_keySegment {w : List Char} {k : String} (h : Names w k) {a b r : List Char}
    (ha : ∀ c ∈ a, isSpaceOrTab c) (hb : ∀ c ∈ b, isSpaceOrTab c)
    (hstop : Stops isBareChar (b ++ r))
    (hr : Stops isSpaceOrTab r) : keySegment.Takes (a ++ (w ++ (b ++ r))) k r :=
  (takes_run a ha (h.stops_blank _)).bind
    ((h.takes hstop).bind ((takes_run b hb hr).bind (takes_pure k r)))

theorem exists_takes_segments {p : List Char × String} {ps : List (List Char × String)}
    (hp : ∀ q ∈ p :: ps, Names q.1 q.2) {a : List Char} (ha : ∀ c ∈ a, isSpaceOrTab c)
    (r : List Char) :
    ∃ m,
      keySegment.Takes (a ++ (p.1 ++ (ps.flatMap (fun q => '.' :: q.1) ++ ' ' :: '=' :: r))) p.2 m ∧
      Reps (do let _ ← one '.'; keySegment) m (ps.map (·.2)) ('=' :: r) ∧
      m.length ≤ (ps.flatMap (fun q => '.' :: q.1) ++ ' ' :: '=' :: r).length := by
  induction ps generalizing p a with
  | nil =>
    have hnames := hp p List.mem_cons_self
    refine ⟨'=' :: r,hnames.takes_keySegment ha isSpaceOrTab_single ?_ ?_,.stop ?_,by simp⟩
    · exact stops_cons.mpr (by decide)
    · exact stops_cons.mpr (by decide)
    · exact (misses_one (stops_cons.mpr (by decide))).bind
  | cons q qs ih =>
    obtain ⟨hnames,hqs⟩ := List.forall_mem_cons.mp hp
    obtain ⟨m,hq,hreps,hlength⟩ := ih hqs (a := []) (by simp)
    rw [List.flatMap_cons, List.append_assoc, List.cons_append]
    refine ⟨_,hnames.takes_keySegment ha (b := []) (by simp) ?_ ?_,?_,Nat.le_refl _⟩
    · exact stops_cons.mpr (by decide)
    · exact stops_cons.mpr (by decide)
    · refine .more ((takes_one _ _).bind hq) ?_ hreps
      simp only [List.length_cons, List.length_append] at hlength ⊢
      omega

theorem takes_keyPath {p : List Char × String} {ps : List (List Char × String)}
    (hp : ∀ q ∈ p :: ps, Names q.1 q.2) {limit : Nat} (hlimit : (p :: ps).length < limit)
    {a : List Char} (ha : ∀ c ∈ a, isSpaceOrTab c) (r : List Char) :
    (keyPath limit).Takes (a ++ (p.1 ++ (ps.flatMap (fun q => '.' :: q.1) ++ ' ' :: '=' :: r)))
      ((p :: ps).map (·.2)) ('=' :: r) := by
  obtain ⟨m,hfirst,hreps,_⟩ := exists_takes_segments hp ha r
  refine (hreps.takes_sepBy1 hfirst).check ?_
  rw [List.map_cons, if_neg]
  simpa using hlimit

end Workbench.Toml

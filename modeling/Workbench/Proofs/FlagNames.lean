import Workbench.Proofs.LongFlags
import Workbench.Proofs.RequestKeys
import Workbench.Proofs.TextLines
set_option autoImplicit false

/-! Flags of dotted keys. A key is the text of a path, and its flag is read off the text: off all of
it, or off what stands behind its last dot. A quoted segment may have dots and quotes in it, but
what is read off it ends with its closing quote, so that no part of it makes a flag. -/

namespace Workbench

namespace Text

theorem join_concat {sep : List Char} {ws : List (List Char)} (h : ws ≠ []) (w : List Char) :
    join sep (ws ++ [w]) = join sep ws ++ sep ++ w := by
  induction ws with
  | nil => exact absurd rfl h
  | cons v ws ih =>
    cases ws with
    | nil => simp [join]
    | cons u us => simpa [join] using ih (List.cons_ne_nil u us)

end Text

namespace Settings

theorem exists_quoted {s : String} (h : ¬ IdentifierLike s) :
    ∃ u, normalizeChars s.toList = '"' :: u ++ ['"'] :=
  ⟨(Text.trim s.toList).flatMap escapeQuote,if_neg h⟩

theorem exists_dottedKey_concat (init : List String) (s : String) :
    ∃ front, (dottedKey (init ++ [s])).toList = front ++ normalizeChars s.toList ∧
      (∀ d ∈ front.getLast?, d = '.') ∧ (init ≠ [] → '.' ∈ front) := by
  rw [dottedKey, String.toList_ofList, List.map_append, List.map_singleton]
  by_cases hinit : init = []
  · subst hinit
    exact ⟨[],rfl,by simp,fun h => absurd rfl h⟩
  · rw [Text.join_concat (by simpa using hinit)]
    exact ⟨_,rfl,by simp,by simp⟩

theorem lastSegment_of_identifierLike (init : List String) {s : String} (h : IdentifierLike s) :
    Adapter.lastSegment (dottedKey (init ++ [s])).toList = normalizeChars s.toList := by
  obtain ⟨front,hkey,hfront,_⟩ := exists_dottedKey_concat init s
  rw [hkey]
  exact Text.getLastD_pieces (fun hdot => absurd (h.word_plain '.' hdot) (by decide)) hfront

theorem quote_mem_lastSegment (init : List String) {s : String} (h : ¬ IdentifierLike s) :
    '"' ∈ Adapter.lastSegment (dottedKey (init ++ [s])).toList := by
  obtain ⟨front,hkey,_,_⟩ := exists_dottedKey_concat init s
  obtain ⟨u,hquoted⟩ := exists_quoted h
  obtain ⟨before,last,hsplit,hlast,hbefore⟩ :=
    Text.exists_last_piece '.' (dottedKey (init ++ [s])).toList
  have hend : (before ++ last).getLast? = some '"' := by
    rw [← hsplit, hkey, hquoted, ← List.append_assoc, List.getLast?_concat]
  rw [hsplit, Adapter.lastSegment, Text.getLastD_pieces hlast hbefore]
  by_cases hnil : last = []
  · rw [hnil, List.append_nil] at hend
    exact absurd (hbefore '"' hend) (by decide)
  · rw [List.getLast?_append_of_ne_nil _ hnil] at hend
    exact List.mem_of_getLast? hend

theorem not_isPlain_of_mem {key : List Char} {c : Char} (h : c ∈ key) (hc : c = '.' ∨ c = '"') :
    Adapter.isPlain key = false := by
  rcases hc with rfl | rfl <;> simp [Adapter.isPlain, h]

theorem IdentifierLike.isPlain_word {s : String} (h : IdentifierLike s) :
    Adapter.isPlain (normalizeChars s.toList) := by
  have hdot : '.' ∉ normalizeChars s.toList := fun hc => absurd (h.word_plain '.' hc) (by decide)
  have hquote : '"' ∉ normalizeChars s.toList := fun hc => absurd (h.word_plain '"' hc) (by decide)
  simp [Adapter.isPlain, h.word_ne_nil, hdot, hquote]

theorem isPlain_lastSegment_iff (init : List String) (s : String) :
    Adapter.isPlain (Adapter.lastSegment (dottedKey (init ++ [s])).toList) ↔ IdentifierLike s := by
  constructor
  · intro hplain
    by_contra h
    rw [not_isPlain_of_mem (quote_mem_lastSegment init h) (.inr rfl)] at hplain
    cases hplain
  · intro h
    rw [lastSegment_of_identifierLike init h]
    exact h.isPlain_word

theorem isPlain_dottedKey_iff (init : List String) (s : String) :
    Adapter.isPlain (dottedKey (init ++ [s])).toList ↔ init = [] ∧ IdentifierLike s := by
  obtain ⟨front,hkey,hfront,hdot⟩ := exists_dottedKey_concat init s
  constructor
  · intro hplain
    rw [hkey] at hplain
    have hno : ∀ c ∈ front ++ normalizeChars s.toList, ¬ (c = '.' ∨ c = '"') := fun c hc hbad => by
      rw [not_isPlain_of_mem hc hbad] at hplain
      cases hplain
    constructor
    · by_contra hinit
      exact hno '.' (List.mem_append_left _ (hdot hinit)) (.inl rfl)
    · by_contra h
      obtain ⟨u,hquoted⟩ := exists_quoted h
      exact hno '"' (by simp [hquoted]) (.inr rfl)
  · rintro ⟨rfl,h⟩
    have hone : (dottedKey ([] ++ [s])).toList = normalizeChars s.toList := by
      rw [dottedKey, String.toList_ofList]
      rfl
    rw [hone]
    exact h.isPlain_word

end Settings

namespace Adapter

open Settings

theorem dottedKey_singleton (s : String) : dottedKey [s] = normalizeSegment s := rfl

theorem isPlain_segment_iff (a : Adapter) (init : List String) (s : String) :
    isPlain (a.segment (dottedKey (init ++ [s]))).toList ↔
      (a.leafKeys ∨ init = []) ∧ IdentifierLike s := by
  cases hleaf : a.leafKeys with
  | true => simp [segment, hleaf, isPlain_lastSegment_iff]
  | false => simp [segment, hleaf, isPlain_dottedKey_iff]

theorem segment_dottedKey {a : Adapter} {init : List String} {s : String}
    (hinit : a.leafKeys ∨ init = []) (hs : IdentifierLike s) :
    a.segment (dottedKey (init ++ [s])) = normalizeSegment s := by
  cases hleaf : a.leafKeys with
  | true => simp [segment, hleaf, lastSegment_of_identifierLike init hs, normalizeSegment]
  | false =>
    obtain rfl : init = [] := by simpa [hleaf] using hinit
    simp [segment, hleaf, dottedKey_singleton]

theorem flagName?_dottedKey_iff {a : Adapter} {init : List String} {s : String}
    {flag : List Char} :
    a.flagName? (dottedKey (init ++ [s])) = some flag ↔
      ((a.leafKeys ∨ init = []) ∧ IdentifierLike s) ∧
        flag = '-' :: '-' :: (renamed a.renames (normalizeSegment s)).toList := by
  rw [flagName?_eq_some_iff, isPlain_segment_iff]
  exact and_congr_right fun h => by rw [segment_dottedKey h.1 h.2]

theorem isSome_flagName?_dottedKey {a : Adapter} {init : List String} {s : String} :
    (a.flagName? (dottedKey (init ++ [s]))).isSome ↔
      (a.leafKeys ∨ init = []) ∧ IdentifierLike s := by
  rw [Option.isSome_iff_exists]
  simp [flagName?_dottedKey_iff]

/-- A key has a flag just when its path is one segment like an identifier, or ends with one where
the last segment names the flag. The flag is that segment as it is normally spelled, or what it is
renamed to; it is spelled with letters, digits and hyphens alone, and so is no part of a quoted
segment. -/
theorem flag_from_whole_segment (a : Adapter) {path : List String} (hpath : path ≠ []) :
    (a.leafKeys = false → ((a.flagName? (dottedKey path)).isSome ↔
      ∃ s, path = [s] ∧ IdentifierLike s)) ∧
    (a.leafKeys = true → ((a.flagName? (dottedKey path)).isSome ↔
      ∃ s, path.getLast? = some s ∧ IdentifierLike s)) ∧
    ∀ flag, a.flagName? (dottedKey path) = some flag → ∃ s, path.getLast? = some s ∧
      IdentifierLike s ∧ flag = '-' :: '-' :: (renamed a.renames (normalizeSegment s)).toList ∧
        ∀ c ∈ (normalizeSegment s).toList, Settings.isPlain c := by
  obtain ⟨init,s,rfl⟩ := (List.eq_nil_or_concat' path).resolve_left hpath
  refine ⟨fun hleaf => ?_,fun hleaf => ?_,fun flag hflag => ?_⟩
  · have hone : ∀ t, init ++ [s] = [t] ↔ init = [] ∧ s = t := fun t => by
      rw [← List.nil_append [t], List.append_singleton_inj]
    rw [isSome_flagName?_dottedKey, hleaf]
    simp [hone]
  · rw [isSome_flagName?_dottedKey, hleaf]
    simp
  · obtain ⟨⟨_,hs⟩,hname⟩ := flagName?_dottedKey_iff.mp hflag
    refine ⟨s,by simp,hs,hname,?_⟩
    rw [normalizeSegment, String.toList_ofList]
    exact hs.word_plain

def bandit : Adapter :=
  { row "bandit" .lint ["-r"] .longCommaJoined .path with
    renames := [("skips", "skip"), ("exclude-dirs", "exclude")] }

theorem flag_from_whole_segment_names :
    (["messages.control\\", " max line_length "] ≠ [] ∧
      (pylint.flagName? (dottedKey ["messages.control\\", " max line_length "])).isSome) ∧
    (["exclude_dirs"] ≠ [] ∧ (bandit.flagName? (dottedKey ["exclude_dirs"])).isSome ∧
      ∀ flag, bandit.flagName? (dottedKey ["exclude_dirs"]) = some flag →
        flag = "--exclude".toList) ∧
    ["main", "a.jobs"] ≠ [] ∧ pylint.flagName? (dottedKey ["main", "a.jobs"]) = none := by
  refine ⟨⟨by simp,?_⟩,⟨by simp,?_,fun flag hflag => ?_⟩,by simp,?_⟩
  · refine ((flag_from_whole_segment pylint (by simp)).2.1 rfl).mpr ⟨_,rfl,?_⟩
    decide
  · refine ((flag_from_whole_segment bandit (by simp)).1 rfl).mpr ⟨_,rfl,?_⟩
    decide
  · obtain ⟨s,hs,_,hname,_⟩ := (flag_from_whole_segment bandit (by simp)).2.2 flag hflag
    cases hs
    rw [hname]
    decide
  · rw [← Option.not_isSome_iff_eq_none,
      (flag_from_whole_segment pylint (by simp)).2.1 rfl]
    rintro ⟨s,hs,hid⟩
    cases hs
    exact absurd hid (by decide)

end Adapter
end Workbench

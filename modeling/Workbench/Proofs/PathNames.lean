import Mathlib.Tactic.SplitIfs
import Workbench.Exclude
import Workbench.FileTree
set_option autoImplicit false

namespace Workbench

namespace Text

theorem pieces_append {sep : Char → Bool} {w s p : List Char} {ps : List (List Char)}
    (hw : ∀ c ∈ w, sep c = false) (h : pieces sep s = p :: ps) :
    pieces sep (w ++ s) = (w ++ p) :: ps := by
  induction w with
  | nil => exact h
  | cons c w ih =>
    have hc := hw c List.mem_cons_self
    have hrest := ih fun d hd => hw d (List.mem_cons_of_mem _ hd)
    simp [pieces, hc, hrest]

theorem pieces_join {c : Char} {ws : List (List Char)} (hne : ws ≠ []) (h : ∀ w ∈ ws, c ∉ w) :
    pieces (· == c) (join [c] ws) = ws := by
  have hplain : ∀ w ∈ ws, ∀ d ∈ w, (d == c) = false :=
    fun w hw d hd => beq_false_of_ne fun he => h w hw (he ▸ hd)
  induction ws with
  | nil => exact absurd rfl hne
  | cons w ws ih =>
    have hw := hplain w List.mem_cons_self
    cases ws with
    | nil =>
      have hend : pieces (· == c) [] = [[]] := rfl
      simpa [join] using pieces_append hw hend
    | cons x ws =>
      have hrest := ih (by simp) (fun v hv => h v (List.mem_cons_of_mem _ hv))
        fun v hv => hplain v (List.mem_cons_of_mem _ hv)
      have hsep : pieces (· == c) (c :: join [c] (x :: ws)) = [] :: x :: ws := by
        simp [pieces, hrest]
      simpa [join] using pieces_append hw hsep

end Text

namespace Path

structure IsName (n : String) : Prop where
  ne_empty : n ≠ ""
  ne_self : n ≠ "."
  ne_parent : n ≠ ".."
  no_separator : '/' ∉ n.toList
  size_le : n.utf8ByteSize ≤ 255

instance (n : String) : Decidable (IsName n) :=
  decidable_of_iff (n ≠ "" ∧ n ≠ "." ∧ n ≠ ".." ∧ '/' ∉ n.toList ∧ n.utf8ByteSize ≤ 255)
    ⟨fun ⟨he,hs,hp,hn,hl⟩ => ⟨he,hs,hp,hn,hl⟩,fun h => ⟨h.1,h.2,h.3,h.4,h.5⟩⟩

theorem pieces_joined {ns : List String} (hne : ns ≠ []) (hn : ∀ n ∈ ns, IsName n) :
    Text.pieces (· == '/') (Text.joined "/" ns).toList = ns.map String.toList := by
  have hsep : "/".toList = ['/'] := by decide
  rw [Text.joined, String.toList_ofList, hsep]
  refine Text.pieces_join (by simpa using hne) fun w hw => ?_
  obtain ⟨n,hm,rfl⟩ := List.mem_map.mp hw
  exact (hn n hm).no_separator

theorem joined_inj {ns ms : List String} (hne : ns ≠ []) (hme : ms ≠ [])
    (hn : ∀ n ∈ ns, IsName n) (hm : ∀ m ∈ ms, IsName m)
    (h : Text.joined "/" ns = Text.joined "/" ms) : ns = ms := by
  have hp := pieces_joined hne hn
  rw [h, pieces_joined hme hm] at hp
  exact (List.map_inj_right fun _ _ => String.toList_inj.mp).mp hp.symm

theorem lastName?_joined {ns : List String} (hn : ∀ n ∈ ns, IsName n) (hne : ns ≠ []) :
    ExcludeRules.lastName? (Text.joined "/" ns) = ns.getLast? := by
  have hkeep : (ns.map String.toList).filter (fun p => !p.isEmpty && p != ['.']) =
      ns.map String.toList := by
    refine List.filter_eq_self.mpr fun w hw => ?_
    obtain ⟨n,hm,rfl⟩ := List.mem_map.mp hw
    have hname := hn n hm
    have hempty : n.toList ≠ [] := fun he => hname.ne_empty (String.toList_inj.mp he)
    have hself : n.toList ≠ ['.'] := fun he => hname.ne_self (String.toList_inj.mp he)
    simp [hempty, hself]
  obtain ⟨n,hlast⟩ := Option.ne_none_iff_exists'.mp (mt List.getLast?_eq_none_iff.mp hne)
  have hparent : n.toList ≠ ['.', '.'] := fun he =>
    (hn n (List.mem_of_getLast? hlast)).ne_parent (String.toList_inj.mp he)
  simp [ExcludeRules.lastName?, pieces_joined hne hn, hkeep, hlast, hparent]

end Path
end Workbench

import Workbench.Merge
import Workbench.Proofs.Sorting
set_option autoImplicit false

namespace Workbench.MergedConfig

def pathKey (f : DetectedFile) : String ×ₗ String := toLex (f.path, f.entry.pattern)

def layerKey (f : DetectedFile) : Nat ×ₗ Stringᵒᵈ :=
  toLex (f.entry.rank.weight, OrderDual.toDual f.path)

theorem pathLe_comparesBy : ComparesBy pathLe pathKey := by
  intro a b
  simp [pathLe, pathKey, Prod.Lex.toLex_le_toLex]

theorem weight_injective {r s : Rank} (h : r.weight = s.weight) : r = s := by
  cases r <;> cases s <;> first | rfl | simp [Rank.weight] at h

theorem layerLe_comparesBy : ComparesBy layerLe layerKey := by
  intro a b
  have hrank : a.entry.rank = b.entry.rank ↔ a.entry.rank.weight = b.entry.rank.weight :=
    ⟨congrArg Rank.weight,weight_injective⟩
  simp [layerLe, layerKey, Prod.Lex.toLex_le_toLex, hrank]

/-- Of two files with their places in a list, which is laid down first: the one of lower rank, of
one rank the one with the later path, of one path the one with the earlier pattern, and else the
one that comes first in the list. -/
def Precedes (a b : DetectedFile × Nat) : Prop :=
  a.1.entry.rank.weight < b.1.entry.rank.weight ∨
    a.1.entry.rank.weight = b.1.entry.rank.weight ∧ (b.1.path < a.1.path ∨
      a.1.path = b.1.path ∧ (a.1.entry.pattern < b.1.entry.pattern ∨
        a.1.entry.pattern = b.1.entry.pattern ∧ a.2 < b.2))

def placeKey (p : DetectedFile × Nat) : (Nat ×ₗ Stringᵒᵈ) ×ₗ (String ×ₗ String) ×ₗ Nat :=
  toLex (layerKey p.1, toLex (pathKey p.1, p.2))

theorem precedes_iff {a b : DetectedFile × Nat} : Precedes a b ↔ placeKey a < placeKey b := by
  simp only [Precedes, placeKey, layerKey, pathKey, Prod.Lex.toLex_lt_toLex, toLex_inj,
    Prod.mk.injEq, OrderDual.toDual_lt_toDual, OrderDual.toDual_inj]
  constructor
  · rintro (hr | ⟨hr,hp | ⟨hp,hn | ⟨hn,hi⟩⟩⟩)
    · exact Or.inl (Or.inl hr)
    · exact Or.inl (Or.inr ⟨hr,hp⟩)
    · exact Or.inr ⟨⟨hr,hp⟩,Or.inl (Or.inr ⟨hp,hn⟩)⟩
    · exact Or.inr ⟨⟨hr,hp⟩,Or.inr ⟨⟨hp,hn⟩,hi⟩⟩
  · rintro ((hr | ⟨hr,hp⟩) | ⟨⟨hr,hp⟩,(hlt | ⟨_,hn⟩) | ⟨⟨_,hn⟩,hi⟩⟩)
    · exact Or.inl hr
    · exact Or.inr ⟨hr,Or.inl hp⟩
    · exact absurd hlt (hp ▸ lt_irrefl _)
    · exact Or.inr ⟨hr,Or.inr ⟨hp,Or.inl hn⟩⟩
    · exact Or.inr ⟨hr,Or.inr ⟨hp,Or.inr ⟨hn,hi⟩⟩⟩

theorem precedes_asymm {a b : DetectedFile × Nat} (hab : Precedes a b) : ¬ Precedes b a := by
  rw [precedes_iff] at *
  exact lt_asymm hab

/-- The second list holds the parsed files of the first in the order of layers. -/
def Layering (files ls : List DetectedFile) : Prop :=
  ∃ placed : List (DetectedFile × Nat), placed.map Prod.fst = ls ∧
    placed.Perm (files.zipIdx.filter fun p => p.1.isParsed) ∧ placed.Pairwise Precedes

theorem layering_unique {files ls ms : List DetectedFile} (hl : Layering files ls)
    (hm : Layering files ms) : ls = ms := by
  obtain ⟨ps,rfl,hps,hord⟩ := hl
  obtain ⟨qs,rfl,hqs,hord'⟩ := hm
  have hanti : ∀ a b, a ∈ ps → b ∈ qs → Precedes a b → Precedes b a → a = b :=
    fun _ _ _ _ hab hba => absurd hba (precedes_asymm hab)
  rw [List.Perm.eq_of_pairwise hanti hord hord' (hps.trans hqs.symm)]

/-- The files with their places, as the two sorts leave them. -/
def placedLayers (files : List DetectedFile) : List (DetectedFile × Nat) :=
  ((files.zipIdx.mergeSort fun a b => pathLe a.1 b.1).filter fun p => p.1.isParsed).mergeSort
    fun a b => layerLe a.1 b.1

theorem placedLayers_fst (files : List DetectedFile) :
    (placedLayers files).map Prod.fst = layers files := by
  have hfst : (files.zipIdx.mergeSort fun a b => pathLe a.1 b.1).map Prod.fst = byPath files := by
    rw [List.map_mergeSort (s := pathLe) fun _ _ _ _ => rfl, List.zipIdx_map_fst, byPath]
  rw [placedLayers, List.map_mergeSort (s := layerLe) fun _ _ _ _ => rfl, layers, ← hfst,
    List.filter_map]
  rfl

theorem placedLayers_pairwise (files : List DetectedFile) :
    (placedLayers files).Pairwise Precedes := by
  -- the sort by rank keeps the order by path among equals, and that the one in the list
  have hpath := (pathLe_comparesBy.comap Prod.fst).pairwise_mergeSort_stable (pairwise_zipIdx files)
  refine ((layerLe_comparesBy.comap Prod.fst).pairwise_mergeSort_stable
    (hpath.filter fun p => p.1.isParsed)).imp fun h => ?_
  rw [precedes_iff, placeKey, placeKey, Prod.Lex.toLex_lt_toLex, Prod.Lex.toLex_lt_toLex]
  exact h

theorem layering_layers (files : List DetectedFile) : Layering files (layers files) := by
  refine ⟨placedLayers files,placedLayers_fst files,?_,placedLayers_pairwise files⟩
  exact (List.mergeSort_perm _ _).trans ((List.mergeSort_perm _ _).filter _)

theorem layering_iff {files ls : List DetectedFile} : Layering files ls ↔ ls = layers files :=
  ⟨fun h => layering_unique h (layering_layers files), fun h => h ▸ layering_layers files⟩

theorem mem_layers {files : List DetectedFile} {f : DetectedFile} :
    f ∈ layers files ↔ f ∈ files ∧ f.isParsed := by
  simp [layers, byPath]

end Workbench.MergedConfig

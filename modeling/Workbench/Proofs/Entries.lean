import Mathlib.Data.List.Induction
import Mathlib.Data.List.Nodup
import Mathlib.Data.String.Basic
import Workbench.Entries
set_option autoImplicit false

namespace Workbench.Entries

variable {α : Type}

theorem find?_insert (k j : String) (v : α) (es : Entries α) :
    find? j (insert k v es) = if j = k then some v else find? j es := by
  by_cases h : j = k
  · subst h; simp
  · simp [h, find?_insert_other h]

theorem find?_modify (k j : String) (f : Option α → α) (es : Entries α) :
    find? j (modify k f es) = if j = k then some (f (find? k es)) else find? j es :=
  find?_insert k j _ es

theorem insert_ne_nil (k : String) (v : α) (es : Entries α) : insert k v es ≠ [] := by
  cases es with
  | nil => simp [insert]
  | cons e es => simp only [insert]; split_ifs <;> simp

theorem insert_insert (k : String) (v w : α) (es : Entries α) :
    insert k v (insert k w es) = insert k v es := by
  induction es with
  | nil => simp [insert]
  | cons e es ih =>
    obtain ⟨k',v'⟩ := e
    by_cases h : k = k'
    · simp [insert, h]
    · by_cases hlt : k < k' <;> simp [insert, h, hlt, ih]

theorem exists_insert (k : String) (es : Entries α) :
    ∃ front back, ∀ v, insert k v es = front ++ (k, v) :: back := by
  induction es with
  | nil => exact ⟨[],[],fun _ => rfl⟩
  | cons e es ih =>
    obtain ⟨front,back,heq⟩ := ih
    by_cases hk : k = e.1
    · exact ⟨[],es,fun v => by simp [insert, hk]⟩
    · by_cases hlt : k < e.1
      · exact ⟨[],e :: es,fun v => by simp [insert, hk, hlt]⟩
      · exact ⟨e :: front,back,fun v => by simp [insert, hk, hlt, heq]⟩

theorem mem_insert {k : String} {v : α} {es : Entries α} {e : String × α}
    (h : e ∈ insert k v es) : e = (k, v) ∨ e ∈ es := by
  induction es with
  | nil => simpa [insert] using h
  | cons a es ih =>
    simp only [insert] at h
    split_ifs at h with hk hlt
    · rcases List.mem_cons.mp h with h | h
      · exact Or.inl h
      · exact Or.inr (List.mem_cons_of_mem _ h)
    · exact List.mem_cons.mp h
    · rcases List.mem_cons.mp h with h | h
      · exact Or.inr (h ▸ List.mem_cons_self)
      · exact (ih h).imp_right (List.mem_cons_of_mem _)

theorem ordered_nil : Ordered ([] : Entries α) := List.Pairwise.nil

theorem ordered_insert {es : Entries α} (h : Ordered es) (k : String) (v : α) :
    Ordered (insert k v es) := by
  induction es with
  | nil => simp [insert, Ordered]
  | cons a es ih =>
    obtain ⟨ha, hes⟩ := List.pairwise_cons.mp h
    simp only [insert]
    split_ifs with hk hlt
    · subst hk
      exact List.pairwise_cons.mpr ⟨ha, hes⟩
    · refine List.pairwise_cons.mpr ⟨fun e he => ?_, h⟩
      rcases List.mem_cons.mp he with rfl | he
      · exact hlt
      · exact lt_trans hlt (ha e he)
    · have hgt : a.1 < k := lt_of_le_of_ne (not_lt.mp hlt) (Ne.symm hk)
      refine List.pairwise_cons.mpr ⟨fun e he => ?_, ih hes⟩
      rcases mem_insert he with rfl | he
      · exact hgt
      · exact ha e he

theorem ordered_modify {es : Entries α} (h : Ordered es) (k : String) (f : Option α → α) :
    Ordered (modify k f es) := ordered_insert h k _

theorem mem_of_find? {k : String} {v : α} {es : Entries α} (h : find? k es = some v) :
    (k, v) ∈ es := by
  induction es with
  | nil => simp [find?] at h
  | cons a es ih =>
    simp only [find?] at h
    split_ifs at h with hk
    · subst hk
      cases h
      exact List.mem_cons_self
    · exact List.mem_cons_of_mem _ (ih h)

theorem find?_eq_some_iff {k : String} {v : α} {es : Entries α} (h : (keys es).Nodup) :
    find? k es = some v ↔ (k, v) ∈ es := by
  refine ⟨mem_of_find?, fun hm => ?_⟩
  induction es with
  | nil => simp at hm
  | cons a es ih =>
    obtain ⟨ha, hes⟩ := List.nodup_cons.mp h
    simp only [find?]
    rcases List.mem_cons.mp hm with rfl | hm
    · simp
    · have hk : k ∈ keys es := List.mem_map_of_mem hm
      have hne : k ≠ a.1 := by rintro rfl; exact ha hk
      rw [if_neg hne]
      exact ih hes hm

theorem Ordered.nodup_keys {es : Entries α} (h : Ordered es) : (keys es).Nodup :=
  List.pairwise_map.mpr (h.imp fun hlt => ne_of_lt hlt)

theorem ne_nil_iff {es : Entries α} : es ≠ [] ↔ ∃ k, (find? k es).isSome := by
  cases es with
  | nil => simp [find?]
  | cons e es => exact iff_of_true (List.cons_ne_nil e es) ⟨e.1,by simp [find?]⟩

theorem find?_eq_none_iff {k : String} {es : Entries α} : find? k es = none ↔ k ∉ keys es := by
  induction es with
  | nil => simp [find?, keys]
  | cons a es ih =>
    by_cases hk : k = a.1
    · simp [find?, keys, hk]
    · simpa [find?, keys, hk] using ih

theorem mem_keys_iff {k : String} {es : Entries α} : k ∈ keys es ↔ (find? k es).isSome := by
  rw [← not_iff_not, ← find?_eq_none_iff, Option.not_isSome_iff_eq_none]

theorem filter_eq_of_mem {es es' : Entries α} (h : Ordered es) (h' : Ordered es')
    {p : String × α → Bool} (hmem : ∀ e, p e → (e ∈ es ↔ e ∈ es')) :
    es.filter p = es'.filter p := by
  have hnodup : ∀ {xs : Entries α}, Ordered xs → (xs.filter p).Nodup := fun hxs =>
    (hxs.filter p).imp fun hlt => ne_of_apply_ne Prod.fst (ne_of_lt hlt)
  have hsame : ∀ e, e ∈ es.filter p ↔ e ∈ es'.filter p := by
    intro e
    rw [List.mem_filter, List.mem_filter]
    exact and_congr_left (hmem e)
  refine List.Perm.eq_of_pairwise (fun _ _ _ _ hab hba => absurd hab (lt_asymm hba))
    (h.filter p) (h'.filter p) ((List.perm_ext_iff_of_nodup (hnodup h) (hnodup h')).mpr hsame)

theorem filter_eq_of_find? {es es' : Entries α} (h : Ordered es) (h' : Ordered es')
    {p : String × α → Bool} (hfind : ∀ e, p e → find? e.1 es = find? e.1 es') :
    es.filter p = es'.filter p := by
  refine filter_eq_of_mem h h' fun e hp => ?_
  rw [← find?_eq_some_iff h.nodup_keys, ← find?_eq_some_iff h'.nodup_keys, hfind e hp]

theorem eq_of_find? {es es' : Entries α} (h : Ordered es) (h' : Ordered es')
    (hfind : ∀ k, find? k es = find? k es') : es = es' := by
  have hfilter := filter_eq_of_find? h h' (p := fun _ => true) fun e _ => hfind e.1
  simpa using hfilter

theorem find?_filter (p : String → Bool) (k : String) (es : Entries α) :
    find? k (es.filter fun e => p e.1) = if p k then find? k es else none := by
  induction es with
  | nil => simp [find?]
  | cons e es ih =>
    obtain ⟨l,v⟩ := e
    rw [List.filter_cons]
    by_cases hk : k = l
    · subst hk
      by_cases hp : p k <;> simp [hp, find?, ih]
    · by_cases hp : p l <;> simp [hp, hk, find?, ih]

theorem find?_map (g : String → α → α) (k : String) (es : Entries α) :
    find? k (es.map fun e => (e.1, g e.1 e.2)) = (find? k es).map (g k) := by
  induction es with
  | nil => rfl
  | cons e es ih =>
    by_cases hk : k = e.1
    · simp [find?, hk]
    · simpa [find?, hk] using ih

theorem ordered_map {es : Entries α} (h : Ordered es) (g : String → α → α) :
    Ordered (es.map fun e => (e.1, g e.1 e.2)) := List.pairwise_map.mpr h

theorem erase_sublist (k : String) (es : Entries α) : (erase k es).Sublist es := by
  induction es with
  | nil => exact .refl []
  | cons a es ih =>
    simp only [erase]
    split_ifs
    · exact List.sublist_cons_self a es
    · exact ih.cons_cons a

theorem ordered_erase {es : Entries α} (h : Ordered es) (k : String) : Ordered (erase k es) :=
  h.sublist (erase_sublist k es)

theorem find?_erase {es : Entries α} (h : (keys es).Nodup) (k j : String) :
    find? j (erase k es) = if j = k then none else find? j es := by
  induction es with
  | nil => simp [erase, find?]
  | cons a es ih =>
    obtain ⟨ha,hes⟩ := List.nodup_cons.mp h
    simp only [erase]
    by_cases hk : k = a.1
    · rw [if_pos hk]
      by_cases hj : j = k
      · rw [if_pos hj, find?_eq_none_iff, hj, hk]
        exact ha
      · have hne : j ≠ a.1 := hk ▸ hj
        rw [if_neg hj, find?, if_neg hne]
    · rw [if_neg hk, find?, find?, ih hes]
      by_cases hj : j = k
      · have hne : j ≠ a.1 := hj ▸ hk
        simp [hj, hk]
      · simp [hj]

theorem ofList_append_singleton (ps : List (String × α)) (p : String × α) :
    ofList (ps ++ [p]) = insert p.1 p.2 (ofList ps) := by
  simp [ofList]

theorem ordered_ofList (ps : List (String × α)) : Ordered (ofList ps) := by
  induction ps using List.reverseRecOn with
  | nil => exact ordered_nil
  | append_singleton ps p ih =>
    rw [ofList_append_singleton]
    exact ordered_insert ih p.1 p.2

theorem mem_of_mem_ofList {ps : List (String × α)} {e : String × α} (h : e ∈ ofList ps) :
    e ∈ ps := by
  induction ps using List.reverseRecOn with
  | nil => simp [ofList] at h
  | append_singleton ps p ih =>
    rw [ofList_append_singleton] at h
    rcases mem_insert h with rfl | h
    · simp
    · exact List.mem_append_left _ (ih h)

theorem find?_ofList (k : String) (ps : List (String × α)) :
    find? k (ofList ps) = ((ps.filter fun p => p.1 = k).getLast?).map Prod.snd := by
  induction ps using List.reverseRecOn with
  | nil => rfl
  | append_singleton ps p ih =>
    rw [ofList_append_singleton, find?_insert, List.filter_append]
    by_cases hk : k = p.1
    · simp [hk]
    · have hk' : ¬ p.1 = k := fun h => hk h.symm
      simp [hk, hk', ih]

theorem find?_ofList_of_nodup {ps : List (String × α)} (h : (ps.map Prod.fst).Nodup) (k : String) :
    find? k (ofList ps) = find? k ps := by
  induction ps using List.reverseRecOn with
  | nil => rfl
  | append_singleton ps p ih =>
    rw [List.map_append, List.nodup_append] at h
    obtain ⟨hps,_,hnew⟩ := h
    have hold : p.1 ∉ keys ps := fun hmem => hnew p.1 hmem p.1 (by simp) rfl
    have happend : ∀ es : List (String × α), find? k (es ++ [p]) =
        if k = p.1 then (find? k es).or (some p.2) else find? k es := by
      intro es
      induction es with
      | nil => simp [find?]
      | cons e es ih =>
        by_cases he : k = e.1
        · simp [find?, he]
        · simpa [find?, he] using ih
    rw [ofList_append_singleton, find?_insert, happend, ih hps]
    by_cases hk : k = p.1
    · subst hk
      simp [find?_eq_none_iff.mpr hold]
    · simp [hk]

theorem ofList_eq_self {es : Entries α} (h : es.Ordered) : ofList es = es :=
  eq_of_find? (ordered_ofList es) h fun k => find?_ofList_of_nodup h.nodup_keys k

theorem perm_ofList {ps : List (String × α)} (h : (ps.map Prod.fst).Nodup) :
    (ofList ps).Perm ps := by
  have hkeys : (keys (ofList ps)).Nodup := (ordered_ofList ps).nodup_keys
  have hiff := List.perm_ext_iff_of_nodup (List.Nodup.of_map _ hkeys) (List.Nodup.of_map _ h)
  refine hiff.mpr fun e => ?_
  rw [← find?_eq_some_iff hkeys, ← find?_eq_some_iff h, find?_ofList_of_nodup h]

theorem find?_ofList_map {γ : Type} (key : γ → String) (f : String → α) (k : String) (v : α)
    (xs : List γ) :
    find? k (ofList (xs.map fun x => (key x, f (key x)))) = some v ↔
      (∃ x ∈ xs, key x = k) ∧ f k = v := by
  induction xs using List.reverseRecOn with
  | nil => simp [ofList, find?]
  | append_singleton xs x ih =>
    rw [List.map_append, List.map_singleton, ofList_append_singleton, find?_insert]
    by_cases hk : k = key x
    · subst hk; simp
    · have hk' : ¬ key x = k := fun h => hk h.symm
      rw [if_neg hk, ih]
      simp [hk']

theorem find?_overlay_of_not_mem {k : String} (under upper : Entries α) (h : k ∉ keys upper) :
    find? k (overlay under upper) = find? k under := by
  induction upper generalizing under with
  | nil => rfl
  | cons e es ih =>
    simp only [keys, List.map_cons, List.mem_cons, not_or] at h
    have hstep : overlay under (e :: es) = overlay (insert e.1 e.2 under) es := rfl
    rw [hstep, ih _ h.2, find?_insert_other h.1]

theorem find?_overlay {upper : Entries α} (h : (keys upper).Nodup) (under : Entries α)
    (k : String) : find? k (overlay under upper) = (find? k upper).or (find? k under) := by
  induction upper generalizing under with
  | nil => rfl
  | cons e es ih =>
    obtain ⟨he,hes⟩ := List.nodup_cons.mp h
    have hstep : overlay under (e :: es) = overlay (insert e.1 e.2 under) es := rfl
    rw [hstep, ih hes, find?, find?_insert]
    by_cases hk : k = e.1
    · subst hk
      simp [find?_eq_none_iff.mpr he]
    · simp [hk]

theorem ordered_overlay {under : Entries α} (h : Ordered under) (upper : Entries α) :
    Ordered (overlay under upper) :=
  List.foldlRecOn upper _ h fun _ hes e _ => ordered_insert hes e.1 e.2

theorem ofList_append (ps qs : List (String × α)) :
    ofList (ps ++ qs) = (ofList ps).overlay (ofList qs) := by
  have hqs := (ordered_ofList qs).nodup_keys
  refine eq_of_find? (ordered_ofList _) (ordered_overlay (ordered_ofList ps) _) fun k => ?_
  rw [find?_overlay hqs, find?_ofList, find?_ofList, find?_ofList, List.filter_append,
    List.getLast?_append, Option.map_or]

end Workbench.Entries

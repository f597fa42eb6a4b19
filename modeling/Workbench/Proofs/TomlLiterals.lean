import Workbench.Proofs.TomlNumbers
import Workbench.Proofs.TomlStrings
import Workbench.Proofs.TomlTables
set_option autoImplicit false

namespace Workbench.Toml

open Scan

/-- A value of no more than so many levels for which there is a literal: no nulls, no deletion
characters, and whole numbers with a signed word. -/
inductive Written : Nat → Json → Prop where
  | bool {n : Nat} (b : Bool) : Written n (.bool b)
  | int {n : Nat} {i : Int} : Words.isSigned 64 i → Written n (.number (.int i))
  | float {n : Nat} {d : Double} : d.IsNormal → Written n (.number (.float d))
  | string {n : Nat} {s : String} : (∀ c ∈ s.toList, c.toNat ≠ 127) → Written n (.string s)
  | array {n : Nat} {items : List Json} : (∀ v ∈ items, Written n v) →
      Written (n + 1) (.array items)
  | object {n : Nat} {fs : List (String × Json)} : Entries.Ordered fs →
      (∀ f ∈ fs, ∀ c ∈ f.1.toList, c.toNat ≠ 127) → (∀ f ∈ fs, Written n f.2) →
      Written (n + 1) (.object fs)

theorem Written.mono {n m : Nat} {v : Json} (h : Written n v) (hnm : n ≤ m) : Written m v := by
  induction h generalizing m with
  | bool b => exact .bool b
  | int hi => exact .int hi
  | float hd => exact .float hd
  | string hs => exact .string hs
  | array _ ih =>
    obtain ⟨m,rfl⟩ := Nat.exists_eq_add_of_le' hnm
    exact .array fun v hv => ih v hv (Nat.le_add_left _ m)
  | object hordered hkeys _ ih =>
    obtain ⟨m,rfl⟩ := Nat.exists_eq_add_of_le' hnm
    exact .object hordered hkeys fun f hf => ih f hf (Nat.le_add_left _ m)

/-- A character that may begin a gap between the parts of an array. -/
def isGap (c : Char) : Bool := isSpaceOrTab c || c == '\n' || c == '\r' || c == '#'

theorem takes_gaps {b i : List Char} (hb : ∀ c ∈ b, isSpaceOrTab c) (hi : Stops isGap i) :
    gaps.Takes (b ++ i) () i := by
  have hstop : ∀ x ∈ i.head?,
      isSpaceOrTab x = false ∧ x ≠ '\n' ∧ x ≠ '\r' ∧ x ≠ '#' := fun x hx => by
    have h := hi x hx
    simp only [isGap, Bool.or_eq_false_iff, beq_eq_false_iff_ne] at h
    exact ⟨h.1.1.1,h.1.1.2,h.1.2,h.2⟩
  have hblank : Stops isSpaceOrTab i := fun x hx => (hstop x hx).1
  have hmiss : (((Scan.map (fun _ => ()) (run1 isSpaceOrTab)).or newline).or
      (do comment; newline)).Misses i := by
    have hfeed : (one '\n').Misses i :=
      misses_one fun x hx => beq_eq_false_iff_ne.mpr (hstop x hx).2.1
    have hreturn : (one '\r').Misses i :=
      misses_one fun x hx => beq_eq_false_iff_ne.mpr (hstop x hx).2.2.1
    have hmark : (one '#').Misses i :=
      misses_one fun x hx => beq_eq_false_iff_ne.mpr (hstop x hx).2.2.2
    exact ((hblank.misses_run1.map _).or ((hfeed.map _).or hreturn.bind)).or hmark.bind.bind
  by_cases hnil : b = []
  · subst hnil
    exact (Reps.stop hmiss).takes_many.bind (takes_pure () i)
  · have hrun := (takes_run1 b hnil hb hblank).map fun _ => ()
    have hreps := (Reps.stop hmiss).more_append b hnil hrun.or.or
    exact hreps.takes_many.bind (takes_pure () i)

structure Spells (s : Scan Json) (t : List Char) (v : Json) : Prop where
  solid : ∀ r, Stops isGap (t ++ r)
  takes : ∀ {r}, Follows r → s.Takes (t ++ r) v r

theorem Spells.stops_blank {s : Scan Json} {t : List Char} {v : Json} (h : Spells s t v)
    (r : List Char) : Stops isSpaceOrTab (t ++ r) := fun c hc => by
  have h := h.solid r c hc
  simp only [isGap, Bool.or_eq_false_iff] at h
  exact h.1.1.1

theorem spells_bool (b : Bool) (array table : Scan Json) :
    Spells (valueWith array table) (Json.renderChars (.bool b)) (.bool b) := by
  cases b with
  | true =>
    exact ⟨fun r => stops_cons.mpr (by decide),fun {r} _ =>
      (takes_anyChar _ _).peek.bind ((takes_word ['t', 'r', 'u', 'e'] r).must.map _)⟩
  | false =>
    exact ⟨fun r => stops_cons.mpr (by decide),fun {r} _ =>
      (takes_anyChar _ _).peek.bind ((takes_word ['f', 'a', 'l', 's', 'e'] r).must.map _)⟩

theorem spells_string {s : String} (hs : ∀ c ∈ s.toList, c.toNat ≠ 127) (array table : Scan Json) :
    Spells (valueWith array table) (Json.renderChars (.string s)) (.string s) where
  solid r := stops_cons.mpr (by decide)
  takes {r} hr := by
    have h := takes_stringValue (fun c hc => escaped_escapeChar (hs c hc)) (hr.stops (by decide))
    have hresult := h.map fun s => Json.string (String.ofList s)
    rw [String.ofList_toList] at hresult
    have htext : Json.renderChars (.string s) ++ r =
        '"' :: (s.toList.flatMap Json.escapeChar ++ '"' :: r) := by
      simp [Json.renderChars, Json.quote]
    rw [htext]
    exact (takes_anyChar _ _).peek.bind hresult

theorem stops_gap_of_digits {negative : Bool} {ds : List Char} (hds : IsWhole ds) (r : List Char) :
    Stops isGap (signText negative ++ (ds ++ r)) := by
  cases negative with
  | true => exact stops_cons.mpr (by decide)
  | false =>
    obtain ⟨d,ds,rfl⟩ := List.exists_cons_of_ne_nil hds.ne_nil
    have hd := hds.digits d List.mem_cons_self
    refine stops_cons.mpr (Bool.eq_false_iff.mpr fun hgap => ?_)
    simp only [isGap, isSpaceOrTab, Bool.or_eq_true, beq_iff_eq] at hgap
    rcases hgap with (((rfl | rfl) | rfl) | rfl) | rfl <;> exact absurd hd (by decide)

theorem spells_int {i : Int} (hi : Words.isSigned 64 i) (array table : Scan Json) :
    Spells (valueWith array table) (Json.renderChars (.number (.int i))) (.number (.int i)) where
  solid r := by
    obtain ⟨negative,m,htext,_⟩ := exists_intText i
    rw [Json.renderChars, Json.numberText, htext, List.append_assoc]
    exact stops_gap_of_digits (isWhole_toDigits m) r
  takes hr := by
    rw [Json.renderChars, Json.numberText]
    exact takes_int hi hr array table

theorem spells_double {d : Double} (hd : d.IsNormal) (array table : Scan Json) :
    Spells (valueWith array table) (Json.renderChars (.number (.float d)))
      (.number (.float d)) where
  solid r := by
    obtain ⟨l,hl,htext,_⟩ := exists_layout hd
    rw [Json.renderChars, Json.numberText, htext, Layout.text, List.append_assoc, List.append_assoc]
    exact stops_gap_of_digits hl.whole _
  takes hr := by
    rw [Json.renderChars, Json.numberText]
    exact takes_double hd hr array table

theorem join_cons (separator t : List Char) (ts : List (List Char)) :
    Text.join separator (t :: ts) = t ++ ts.flatMap (separator ++ ·) := by
  induction ts generalizing t with
  | nil => simp [Text.join]
  | cons u us ih => simp [Text.join, ih]

def arrayItem (value : Scan Json) : Scan Json := do
  gaps
  let v ← value
  gaps
  pure v

theorem Spells.takes_arrayItem {s : Scan Json} {t : List Char} {v : Json} (h : Spells s t v)
    {b r : List Char} (hb : ∀ c ∈ b, isSpaceOrTab c) (hr : Follows r) :
    (arrayItem s).Takes (b ++ (t ++ r)) v r :=
  (takes_gaps hb (h.solid r)).bind ((h.takes hr).bind
    ((takes_gaps (b := []) (by simp) (hr.stops (by decide))).bind (takes_pure v r)))

theorem valueWith_misses (array table : Scan Json) (i : List Char) :
    (valueWith array table).Misses (']' :: i) :=
  (takes_anyChar _ _).peek.bind_misses (misses_fail _)

theorem takes_separated {α : Type} {item : Scan α} (Part : List Char → α → Prop)
    (htakes : ∀ t a, Part t a → ∀ b, (∀ c ∈ b, isSpaceOrTab c) → ∀ r, Follows r →
      item.Takes (b ++ (t ++ r)) a r)
    (ps : List (List Char × α)) (hne : ps ≠ []) (hps : ∀ p ∈ ps, Part p.1 p.2)
    {r : List Char} (hr : Follows r) (hcomma : Stops (· == ',') r) :
    (item.sepBy (one ',')).Takes (Text.join [',', ' '] (ps.map (·.1)) ++ r) (ps.map (·.2)) r := by
  obtain ⟨p,ps,rfl⟩ := List.exists_cons_of_ne_nil hne
  obtain ⟨hp,hps⟩ := List.forall_mem_cons.mp hps
  have hmiss : (do let _ ← one ','; item).Misses r := (misses_one hcomma).bind
  have hreps := Reps.of_pieces Follows
    (ps.map fun q => (',' :: ' ' :: q.1,q.2)) (fun q hq => by
      obtain ⟨q,hmem,rfl⟩ := List.mem_map.mp hq
      refine ⟨List.cons_ne_nil _ _,fun r => follows_cons.mpr (.inl rfl),fun r hr => ?_⟩
      exact (takes_one _ _).bind
        (htakes q.1 q.2 (hps q hmem) [' '] isSpaceOrTab_single r hr)) hmiss hr
  have hfollows : Follows ((ps.map fun q => (',' :: ' ' :: q.1,q.2)).flatMap (·.1) ++ r) := by
    cases ps with
    | nil => exact hr
    | cons q qs => exact follows_cons.mpr (.inl rfl)
  have hfirst := htakes p.1 p.2 hp [] (by simp) _ hfollows
  have hall := Reps.takes_sepBy hfirst hreps
  simpa [join_cons, List.flatMap_map, Function.comp_def] using hall

theorem takes_arrayOf {s : Scan Json} (hs : ∀ i, s.Misses (']' :: i)) {ps : List (List Char × Json)}
    (hps : ∀ p ∈ ps, Spells s p.1 p.2) (r : List Char) :
    (arrayOf s).Takes ('[' :: (Text.join [',', ' '] (ps.map (·.1)) ++ ']' :: r))
      (.array (ps.map (·.2))) r := by
  have hclose : Follows (']' :: r) := follows_cons.mpr (by decide)
  have hcomma : Stops (· == ',') (']' :: r) := stops_cons.mpr (by decide)
  have hgaps := (takes_gaps (b := []) (i := ']' :: r) (by simp) (stops_cons.mpr (by decide))).must
  cases ps with
  | nil =>
    have hmiss : (arrayItem s).Misses (']' :: r) :=
      (takes_gaps (b := []) (by simp) (stops_cons.mpr (by decide))).bind_misses (hs r).bind
    exact (takes_one _ _).bind (hmiss.takes_sepBy.bind
      (hgaps.bind ((takes_one ']' r).must.bind (takes_pure _ r))))
  | cons p ps =>
    have hitems := takes_separated (Spells s)
      (fun t v h b hb r hr => h.takes_arrayItem hb hr) (p :: ps) (List.cons_ne_nil p ps) hps hclose
      hcomma
    exact (takes_one _ _).bind (hitems.bind ((misses_one hcomma).maybe.bind
      (hgaps.bind ((takes_one ']' r).must.bind (takes_pure _ r)))))

inductive IsPair (s : Scan Json) : List Char → List String × Json → Prop where
  | of {t : List Char} {v : Json} {k : String} : (∀ c ∈ k.toList, c.toNat ≠ 127) → Spells s t v →
      IsPair s (Json.quote k.toList ++ [' ', '=', ' '] ++ t) ([k],v)

theorem IsPair.takes_pairOf {s : Scan Json} {w : List Char} {p : List String × Json}
    (h : IsPair s w p) {limit : Nat} (hlimit : 1 < limit) {b r : List Char}
    (hb : ∀ c ∈ b, isSpaceOrTab c) (hr : Follows r) :
    (pairOf limit s).Takes (b ++ (w ++ r)) p r := by
  cases h with
  | @of t v k hk ht =>
    have hnames : ∀ q ∈ [(Json.quote k.toList,k)], Names q.1 q.2 := by simpa using names_quote hk
    have hpath := takes_keyPath hnames (by simpa using hlimit) hb (' ' :: (t ++ r))
    have htext : b ++ (Json.quote k.toList ++ [' ', '=', ' '] ++ t ++ r) =
        b ++ (Json.quote k.toList ++ ' ' :: '=' :: ' ' :: (t ++ r)) := by simp
    have hgap := takes_run [' '] isSpaceOrTab_single (ht.stops_blank r)
    have hend : Stops isSpaceOrTab r := hr.stops (by decide)
    rw [htext]
    refine Takes.bind hpath ((takes_one '=' _).must.bind (Takes.bind hgap ?_))
    exact (ht.takes hr).must.bind (hend.takes_run.bind (takes_pure _ r))

theorem putAll_eq {fs : List (String × Json)} (hfs : (Entries.keys fs).Nodup) (es : Nodes)
    (hes : ∀ f ∈ fs, Entries.find? f.1 es = none) :
    Open.putAll ⟨false,false,es⟩ (fs.map fun f => ([f.1],f.2)) =
      .ok ⟨false,false,fs.foldl (fun es f => Entries.insert f.1 (.leaf f.2) es) es⟩ := by
  induction fs generalizing es with
  | nil => rfl
  | cons f fs ih =>
    obtain ⟨hnew,hfs⟩ := List.nodup_cons.mp hfs
    obtain ⟨hf,hes⟩ := List.forall_mem_cons.mp hes
    have hput : Open.put ⟨false,false,es⟩ [] f.1 f.2 =
        .ok ⟨false,false,Entries.insert f.1 (.leaf f.2) es⟩ := by
      simp [Open.put, descend, Entries.contains, hf]
    have hrest : ∀ g ∈ fs, Entries.find? g.1 (Entries.insert f.1 (.leaf f.2) es) = none := by
      intro g hg
      have hmem : g.1 ∈ fs.map (·.1) := List.mem_map_of_mem hg
      have hne : g.1 ≠ f.1 := fun h => hnew (by rwa [h] at hmem)
      rw [Entries.find?_insert_other hne, hes g hg]
    change (Open.put ⟨false,false,es⟩ [] f.1 f.2 >>= fun t =>
      t.putAll (fs.map fun f => ([f.1],f.2))) = _
    rw [hput]
    exact ih hfs _ hrest

theorem entriesToJson_foldl (fs : List (String × Json)) (es : Nodes) :
    entriesToJson (fs.foldl (fun es f => Entries.insert f.1 (.leaf f.2) es) es) =
      fs.foldl (fun es f => Entries.insert f.1 f.2 es) (entriesToJson es) := by
  induction fs generalizing es with
  | nil => rfl
  | cons f fs ih =>
    rw [List.foldl_cons, List.foldl_cons, ih, entriesToJson_insert]
    rfl

theorem pairOf_misses (limit : Nat) (s : Scan Json) (i : List Char) :
    (pairOf limit s).Misses ('\x7d' :: i) := by
  have hstop : Stops isBareChar ('\x7d' :: i) := stops_cons.mpr (by decide)
  have hkey : simpleKey.Misses ('\x7d' :: i) :=
    (takes_anyChar _ _).peek.bind_misses hstop.misses_run1.bind
  have hblank : Stops isSpaceOrTab ('\x7d' :: i) := stops_cons.mpr (by decide)
  have hsegment : keySegment.Misses ('\x7d' :: i) := hblank.takes_run.bind_misses hkey.bind
  have hfirst : (keySegment.sepBy1 (one '.')).Misses ('\x7d' :: i) := hsegment.bind
  exact hfirst.check.bind

theorem takes_inlineTableOf {s : Scan Json} {limit : Nat} (hlimit : 1 < limit)
    {ps : List (List Char × (String × Json))}
    (hps : ∀ p ∈ ps, IsPair s p.1 ([p.2.1],p.2.2))
    (hordered : Entries.Ordered (ps.map (·.2))) (r : List Char) :
    (inlineTableOf limit s).Takes ('\x7b' :: (Text.join [',', ' '] (ps.map (·.1)) ++ '\x7d' :: r))
      (.object (ps.map (·.2))) r := by
  have hclose : Follows ('\x7d' :: r) := follows_cons.mpr (by decide)
  have hcomma : Stops (· == ',') ('\x7d' :: r) := stops_cons.mpr (by decide)
  have hblank : Stops isSpaceOrTab ('\x7d' :: r) := stops_cons.mpr (by decide)
  have hpairs : ((pairOf limit s).sepBy (one ',')).Takes
      (Text.join [',', ' '] (ps.map (·.1)) ++ '\x7d' :: r)
      ((ps.map (·.2)).map fun f => ([f.1],f.2)) ('\x7d' :: r) := by
    by_cases hnil : ps = []
    · subst hnil
      exact (pairOf_misses limit s r).takes_sepBy
    · have hall := takes_separated (IsPair s)
        (fun t a h b hb r hr => h.takes_pairOf hlimit hb hr)
        (ps.map fun p => (p.1,([p.2.1],p.2.2))) (by simpa using hnil)
        (List.forall_mem_map.mpr hps) hclose hcomma
      simpa [Function.comp_def] using hall
  have hput := putAll_eq hordered.nodup_keys [] fun _ _ => rfl
  refine (takes_one _ _).bind (Takes.bind
    (Takes.require (a := (ps.map (·.2)).map fun f => ([f.1],f.2)) ?_ ?_)
    ((takes_one _ r).must.bind (takes_pure _ r)))
  · exact hpairs.bind (hblank.takes_run.bind (takes_pure _ _))
  · simp only [hput, entriesToJson_foldl]
    exact congrArg (some ∘ Json.object) (Entries.ofList_eq_self hordered)

theorem exists_valueWith (limit n : Nat) :
    ∃ array table, valueUpTo limit n = valueWith array table := by
  cases n <;> exact ⟨_,_,rfl⟩

theorem exists_tomlItems {s : Scan Json} {items : List Json}
    (h : ∀ v ∈ items, ∃ t, Adapter.tomlLiteral? v = some t ∧ Spells s t v) :
    ∃ ps : List (List Char × Json), ps.map (·.2) = items ∧
      Adapter.tomlItems? items = some (ps.map (·.1)) ∧ ∀ p ∈ ps, Spells s p.1 p.2 := by
  induction items with
  | nil => exact ⟨[],rfl,rfl,by simp⟩
  | cons v items ih =>
    obtain ⟨⟨t,ht,hspells⟩,hitems⟩ := List.forall_mem_cons.mp h
    obtain ⟨ps,rfl,htexts,hps⟩ := ih hitems
    exact ⟨(t,v) :: ps,rfl,by rw [Adapter.tomlItems?, ht, htexts]; rfl,
      List.forall_mem_cons.mpr ⟨hspells,hps⟩⟩

theorem exists_tomlFields {s : Scan Json} {fs : List (String × Json)}
    (hkeys : ∀ f ∈ fs, ∀ c ∈ f.1.toList, c.toNat ≠ 127)
    (h : ∀ f ∈ fs, ∃ t, Adapter.tomlLiteral? f.2 = some t ∧ Spells s t f.2) :
    ∃ ps : List (List Char × (String × Json)), ps.map (·.2) = fs ∧
      Adapter.tomlFields? fs = some (ps.map (·.1)) ∧ ∀ p ∈ ps, IsPair s p.1 ([p.2.1],p.2.2) := by
  induction fs with
  | nil => exact ⟨[],rfl,rfl,by simp⟩
  | cons f fs ih =>
    obtain ⟨hkey,hkeys⟩ := List.forall_mem_cons.mp hkeys
    obtain ⟨⟨t,ht,hspells⟩,hfs⟩ := List.forall_mem_cons.mp h
    obtain ⟨ps,rfl,htexts,hps⟩ := ih hkeys hfs
    exact ⟨(Json.quote f.1.toList ++ [' ', '=', ' '] ++ t,f) :: ps,rfl,
      by rw [Adapter.tomlFields?, ht, htexts]; rfl,
      List.forall_mem_cons.mpr ⟨.of hkey hspells,hps⟩⟩

theorem exists_literal {n : Nat} {v : Json} (hv : Written n v) {limit : Nat} (hlimit : 1 < limit) :
    ∃ t, Adapter.tomlLiteral? v = some t ∧ Spells (valueUpTo limit n) t v := by
  induction hv with
  | @bool n b =>
    obtain ⟨array,table,hs⟩ := exists_valueWith limit n
    exact ⟨_,rfl,hs ▸ spells_bool b array table⟩
  | @int n i hi =>
    obtain ⟨array,table,hs⟩ := exists_valueWith limit n
    exact ⟨_,rfl,hs ▸ spells_int hi array table⟩
  | @float n d hd =>
    obtain ⟨array,table,hs⟩ := exists_valueWith limit n
    exact ⟨_,rfl,hs ▸ spells_double hd array table⟩
  | @string n s hchars =>
    obtain ⟨array,table,hs⟩ := exists_valueWith limit n
    exact ⟨_,rfl,hs ▸ spells_string hchars array table⟩
  -- the parts are one level lower, and so is the scanner that takes them
  | @array n items _ ih =>
    obtain ⟨ps,rfl,htexts,hps⟩ := exists_tomlItems ih
    refine ⟨'[' :: Text.join [',', ' '] (ps.map (·.1)) ++ [']'],
      by rw [Adapter.tomlLiteral?, htexts]; rfl,fun r => stops_cons.mpr (by decide),fun {r} _ => ?_⟩
    have hmiss : ∀ i, (valueUpTo limit n).Misses (']' :: i) := fun i => by
      obtain ⟨array,table,hs⟩ := exists_valueWith limit n
      exact hs ▸ valueWith_misses array table i
    rw [List.append_assoc, List.cons_append, List.singleton_append]
    exact (takes_anyChar _ _).peek.bind (takes_arrayOf hmiss hps r)
  | @object n fs hordered hkeys _ ih =>
    obtain ⟨ps,rfl,htexts,hps⟩ := exists_tomlFields hkeys ih
    refine ⟨'\x7b' :: Text.join [',', ' '] (ps.map (·.1)) ++ ['\x7d'],
      by rw [Adapter.tomlLiteral?, htexts]; rfl,fun r => stops_cons.mpr (by decide),fun {r} _ => ?_⟩
    rw [List.append_assoc, List.cons_append, List.singleton_append]
    exact (takes_anyChar _ _).peek.bind (takes_inlineTableOf hlimit hps hordered r)

end Workbench.Toml

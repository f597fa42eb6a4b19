import Workbench.Proofs.Flattening
import Workbench.Proofs.TomlLiterals
set_option autoImplicit false

/-! Settings as arguments of a tool that reads them as TOML. Each argument is a document with one
leaf: the setting's value, under the path that its key was made of. This holds where the key spells
its segments out and the value has a literal; a backslash in a quoted segment is not escaped, and
what is read is then another key. -/

namespace Workbench

namespace Toml

open Scan

def nested (path : List String) (v : Json) : Json := path.foldr (fun k v => .object [(k,v)]) v

theorem leaves_nested {v : Json} (hv : v.isObject = false) (base path : List String) :
    Settings.leaves base (nested path v) = [(base ++ path,v)] := by
  induction path generalizing base with
  | nil => simpa [nested] using Settings.leaves_leaf hv base
  | cons k ks ih =>
    have hinner := ih (base ++ [k])
    simp only [nested] at hinner
    simp [nested, Settings.leaves, Settings.fieldLeaves, hinner]

theorem exists_descend (f : Open → Except Clash Open) (key : String) (v : Json)
    (hf : f ⟨true,true,[]⟩ = .ok ⟨true,true,[(key,.leaf v)]⟩) (ks : List String) (k : String)
    (implied dotted : Bool) :
    ∃ es, descend true f (k :: ks) ⟨implied,dotted,[]⟩ = .ok ⟨implied,dotted,es⟩ ∧
      Json.object (entriesToJson es) = nested (k :: ks ++ [key]) v := by
  induction ks generalizing k implied dotted with
  | nil =>
    refine ⟨[(k,.table true true [(key,.leaf v)])],?_,rfl⟩
    simp [descend, Entries.find?, hf, Entries.insert]
  | cons l ks ih =>
    obtain ⟨es,hdescend,hjson⟩ := ih l true true
    refine ⟨[(k,.table true true es)],?_,?_⟩
    · rw [descend]
      simp only [Entries.find?, hdescend]
      rfl
    · simp only [entriesToJson, Node.toJson, hjson]
      rfl

theorem exists_keyValue {path : List String} (hne : path ≠ []) (v : Json) :
    ∃ d, Document.start.keyValue path.dropLast (path.getLastD "") v = .ok d ∧
      d.toJson = .ok (nested path v) := by
  obtain ⟨init,key,rfl⟩ : ∃ init key, path = init ++ [key] :=
    ⟨path.dropLast,path.getLast hne,(List.dropLast_append_getLast hne).symm⟩
  rw [List.dropLast_concat, List.getLastD_concat]
  cases init with
  | nil => exact ⟨_,rfl,rfl⟩
  | cons k ks =>
    obtain ⟨es,hdescend,hjson⟩ := exists_descend (fun t =>
      if t.dotted == (k :: ks).isEmpty then .error (.taken key)
      else if Entries.contains key t.entries then .error (.taken key)
      else .ok { t with entries := Entries.insert key (.leaf v) t.entries }) key v
      rfl ks k false false
    refine ⟨⟨[],es,[],false⟩,?_,?_⟩
    · simp only [Document.keyValue, Open.put, Document.start]
      rw [hdescend]
      rfl
    · exact congrArg Except.ok hjson

theorem takes_lineRest : lineRest.Takes [] () [] := by
  have hfeed : newline.Misses [] :=
    ((misses_one (stops_nil _)).map _).or (misses_one (stops_nil _)).bind
  have hend : endOfText.Takes [] () [] := fun o => ⟨o,rfl⟩
  have hcomment : comment.Misses [] := (misses_one (stops_nil _)).bind
  exact (stops_nil _).takes_run.bind (hcomment.maybe.bind (hfeed.or_takes hend))

theorem documentUpTo_end (limit n : Nat) (d : Document) :
    (documentUpTo limit n d).Takes [] d [] := by
  cases n with
  | zero => exact takes_pure d []
  | succ n =>
    have hline : (line limit d).Misses [] := by
      intro o
      exact ⟨o,rfl⟩
    exact hline.bind.maybe.bind (takes_pure d [])

theorem parseWithin_line {limit : Nat} {c : Char} {i : List Char} (hc : isBareChar c ∨ c = '"')
    {edit : Edit} {d : Document} {v : Json} (hline : (keyValueLine limit).Takes (c :: i) edit [])
    (hedit : edit .start = .ok d) (hjson : d.toJson = .ok v) :
    parseWithin limit (c :: i) = .ok v := by
  have hother : ∀ x, isBareChar x = false → x ≠ '"' → c ≠ x := by
    rintro x hx hquote rfl
    rcases hc with hc | hc
    · exact absurd hc (by rw [hx]; exact Bool.false_ne_true)
    · exact hquote hc
  have hedited : (edited .start (keyValueLine limit)).Takes (c :: i) d [] :=
    hline.require (by rw [hedit])
  have hfirst : (line limit .start).Takes (c :: i) d [] := by
    refine (takes_anyChar _ _).peek.bind ?_
    split
    · exact absurd rfl (hother '#' (by decide) (by decide))
    · exact absurd rfl (hother '[' (by decide) (by decide))
    · exact absurd rfl (hother '\n' (by decide) (by decide))
    · exact absurd rfl (hother '\r' (by decide) (by decide))
    · exact hedited.must
  have hlines : ∀ n, (documentUpTo limit (n + 1) .start).Takes (c :: i) d [] := fun n =>
    (hfirst.bind ((stops_nil _).takes_run.bind (takes_pure d []))).maybe.bind
      (documentUpTo_end limit n d)
  have hmark : (one '\ufeff').Misses (c :: i) :=
    misses_one (stops_cons.mpr (beq_eq_false_iff_ne.mpr (hother '\ufeff' (by decide) (by decide))))
  have hblank : Stops isSpaceOrTab (c :: i) := by
    simp [isSpaceOrTab, hother ' ' (by decide) (by decide),
      hother '\t' (by decide) (by decide)]
  have hend : endOfText.Takes [] () [] := fun o => ⟨o,rfl⟩
  have hdocument : (document limit).Takes (c :: i) d [] := by
    refine hmark.maybe.bind (hblank.takes_run.bind (Takes.bind ?_ (hend.bind (takes_pure d []))))
    exact fun o => hlines _ o
  obtain ⟨o,ho⟩ := hdocument 0
  rw [parseWithin, Cursor.start, ho]
  simp only [hjson]

theorem parseWithin_assignment {ps : List (List Char × String)} (hne : ps ≠ [])
    (hnames : ∀ p ∈ ps, Names p.1 p.2) {limit : Nat} (hlength : ps.length < limit) {t : List Char}
    {v : Json} (ht : Spells (value limit) t v) :
    parseWithin limit (Text.join ['.'] (ps.map (·.1)) ++ [' ', '=', ' '] ++ t) =
      .ok (nested (ps.map (·.2)) v) := by
  obtain ⟨p,ps,rfl⟩ := List.exists_cons_of_ne_nil hne
  have hsegments : (p :: ps).map (·.2) ≠ [] := List.cons_ne_nil _ _
  obtain ⟨d,hedit,hjson⟩ := exists_keyValue hsegments v
  have htext : Text.join ['.'] ((p :: ps).map (·.1)) ++ [' ', '=', ' '] ++ t =
      p.1 ++ (ps.flatMap (fun q => '.' :: q.1) ++ ' ' :: '=' :: ' ' :: (t ++ [])) := by
    simp [join_cons, List.flatMap_map]
  have hpath := takes_keyPath hnames hlength (a := []) (by simp) (' ' :: (t ++ []))
  have hgap := takes_run [' '] isSpaceOrTab_single (ht.stops_blank [])
  have hline : (keyValueLine limit).Takes
      (p.1 ++ (ps.flatMap (fun q => '.' :: q.1) ++ ' ' :: '=' :: ' ' :: (t ++ [])))
      (fun d => d.keyValue ((p :: ps).map (·.2)).dropLast (((p :: ps).map (·.2)).getLastD "") v)
      [] := by
    refine Takes.bind hpath (Takes.bind (Takes.must ?_) (takes_pure _ []))
    refine (takes_one _ _).bind (Takes.bind hgap ?_)
    exact (ht.takes follows_nil).bind (takes_lineRest.bind (takes_pure v []))
  obtain ⟨c,i,hhead,hc⟩ := (hnames p List.mem_cons_self).head
  rw [htext]
  rw [hhead, List.cons_append] at hline ⊢
  exact parseWithin_line hc hline hedit hjson

def segment (s : String) : String := String.ofList (segmentText s.toList)

def configText (e : String × Json) : List Char :=
  e.1.toList ++ [' ', '=', ' '] ++ (Adapter.tomlLiteral? e.2).getD []

/-- Wherever more than `depth` levels are allowed, the text is read as a document, and the document
has one leaf. -/
structure Denotes (text : List Char) (depth : Nat) (path : List String) (v : Json) : Prop where
  reads : ∀ limit, depth < limit → parseWithin limit text = .ok (nested path v)
  leaf : Settings.leaves [] (nested path v) = [(path,v)]

theorem denotes_configText {path : List String} (hne : path ≠ [])
    (hpath : ∀ s ∈ path, IsSpelled s.toList) {n : Nat} {v : Json} (hleaf : v.isObject = false)
    (hv : Written n v) :
    Denotes (configText (Settings.dottedKey path,v)) (max path.length n) (path.map segment) v := by
  refine ⟨fun limit hlimit => ?_,by simpa using leaves_nested hleaf [] (path.map segment)⟩
  have hlength := List.length_pos_iff.mpr hne
  obtain ⟨t,ht,hspells⟩ := exists_literal (hv.mono (m := limit - 1) (by omega))
    (show 1 < limit by omega)
  have hnames : ∀ q ∈ path.map fun s => (Settings.normalizeChars s.toList,segment s),
      Names q.1 q.2 := by
    intro q hq
    obtain ⟨s,hs,rfl⟩ := List.mem_map.mp hq
    exact names_segment (hpath s hs)
  have hshort : (path.map fun s => (Settings.normalizeChars s.toList,segment s)).length <
      limit := by
    rw [List.length_map]
    omega
  have hread := parseWithin_assignment (by simpa using hne) hnames hshort hspells
  simpa [configText, Settings.dottedKey, ht, Function.comp_def] using hread

end Toml

namespace Adapter

open Toml

/-- No value in it, at any depth, is null. -/
inductive NullFree : Json → Prop where
  | bool (b : Bool) : NullFree (.bool b)
  | number (n : Number) : NullFree (.number n)
  | string (s : String) : NullFree (.string s)
  | array {items : List Json} : (∀ v ∈ items, NullFree v) → NullFree (.array items)
  | object {fs : List (String × Json)} : (∀ f ∈ fs, NullFree f.2) → NullFree (.object fs)

theorem isSome_tomlItems? {items : List Json} (h : ∀ v ∈ items, (tomlLiteral? v).isSome) :
    (tomlItems? items).isSome := by
  induction items with
  | nil => rfl
  | cons v items ih =>
    obtain ⟨hv,hitems⟩ := List.forall_mem_cons.mp h
    obtain ⟨t,ht⟩ := Option.isSome_iff_exists.mp hv
    obtain ⟨ts,hts⟩ := Option.isSome_iff_exists.mp (ih hitems)
    rw [tomlItems?, ht, hts]
    rfl

theorem isSome_tomlFields? {fs : List (String × Json)} (h : ∀ f ∈ fs, (tomlLiteral? f.2).isSome) :
    (tomlFields? fs).isSome := by
  induction fs with
  | nil => rfl
  | cons f fs ih =>
    obtain ⟨hf,hfs⟩ := List.forall_mem_cons.mp h
    obtain ⟨t,ht⟩ := Option.isSome_iff_exists.mp hf
    obtain ⟨ts,hts⟩ := Option.isSome_iff_exists.mp (ih hfs)
    rw [tomlFields?, ht, hts]
    rfl

namespace NullFree

theorem isSome_tomlLiteral? {v : Json} (h : NullFree v) : (tomlLiteral? v).isSome := by
  induction h with
  | bool b => rfl
  | number n => rfl
  | string s => rfl
  | array _ ih => simpa [tomlLiteral?] using Adapter.isSome_tomlItems? ih
  | object _ ih => simpa [tomlLiteral?] using Adapter.isSome_tomlFields? ih

theorem leafAt {v leaf : Json} {path : List String} (h : NullFree v)
    (hleaf : Settings.LeafAt v path leaf) : NullFree leaf := by
  induction hleaf with
  | here _ => exact h
  | field hmem _ ih =>
    cases h with
    | object hfs => exact ih (hfs _ hmem)

end NullFree

theorem exists_leafAt {fs : List (String × Json)} {e : String × Json}
    (h : e ∈ Settings.flatten (.object fs)) :
    ∃ path, e.1 = Settings.dottedKey path ∧ Settings.LeafAt (.object fs) path e.2 := by
  obtain ⟨⟨path,leaf⟩,hmem,rfl⟩ := List.mem_map.mp (Entries.mem_of_mem_ofList h)
  exact ⟨path,rfl,Settings.mem_objectLeaves.mp hmem⟩

/-- Every setting of an object without nulls becomes one argument; if its key spells the segments
out and its value has a literal, the argument is a document with one leaf, the setting's value under
the segments. -/
theorem config_arguments_denote {a : Adapter} (ha : a.style = .tomlConfig)
    {fs : List (String × Json)} (hnull : NullFree (.object fs)) :
    a.settingArgs (Settings.flatten (.object fs)) =
      ((Settings.flatten (.object fs)).filter isUsable).flatMap
        (fun e => ["--config".toList,configText e]) ∧
    ∀ e ∈ Settings.flatten (.object fs), ∃ path, e.1 = Settings.dottedKey path ∧
      Settings.LeafAt (.object fs) path e.2 ∧
      ∀ n, (∀ s ∈ path, IsSpelled s.toList) → Written n e.2 →
        Denotes (configText e) (max path.length n) (path.map segment) e.2 := by
  constructor
  · simp only [settingArgs, ha]
    refine List.flatMap_congr fun e he => ?_
    obtain ⟨path,_,hleaf⟩ := exists_leafAt (List.mem_of_mem_filter he)
    obtain ⟨t,ht⟩ := Option.isSome_iff_exists.mp (hnull.leafAt hleaf).isSome_tomlLiteral?
    rw [tomlArgs, configText, ht]
    rfl
  · intro e he
    obtain ⟨path,hkey,hleaf⟩ := exists_leafAt he
    refine ⟨path,hkey,hleaf,fun n hpath hv => ?_⟩
    have h := denotes_configText hleaf.path_ne_nil hpath hleaf.leaf_not_object hv
    rwa [← hkey] at h

def ruleList : Json := .array [.string "F401"]

theorem written_ruleList (n : Nat) : Written (n + 1) ruleList := by
  have hall : ("F401".toList.all fun c => c.toNat != 127) = true := by decide
  refine .array fun v hv => List.mem_singleton.mp hv ▸ .string fun c hc => ?_
  exact bne_iff_ne.mp (List.all_eq_true.mp hall c hc)

theorem nullFree_ruleList : NullFree ruleList :=
  .array fun _ hv => List.mem_singleton.mp hv ▸ .string "F401"

def ignoredInTests : List (String × Json) :=
  [("lint",.object [("per_file",.object [("tests/*.py",ruleList)])])]

theorem config_arguments_denote_ruff :
    ∃ a ∈ table, a.style = .tomlConfig ∧ NullFree (.object ignoredInTests) ∧
      a.settingArgs (Settings.flatten (.object ignoredInTests)) =
        ["--config".toList,"lint.per-file.\"tests/*.py\" = [\"F401\"]".toList] ∧
      Denotes "lint.per-file.\"tests/*.py\" = [\"F401\"]".toList 3
        ["lint","per-file","tests/*.py"] ruleList := by
  have hnull : NullFree (.object ignoredInTests) := by
    refine .object fun f hf => List.mem_singleton.mp hf ▸ ?_
    refine .object fun f hf => List.mem_singleton.mp hf ▸ ?_
    refine .object fun f hf => List.mem_singleton.mp hf ▸ ?_
    exact nullFree_ruleList
  have hflat : Settings.flatten (.object ignoredInTests) =
      [("lint.per-file.\"tests/*.py\"",ruleList)] := by decide +kernel
  obtain ⟨hargs,hall⟩ := config_arguments_denote (a := row "ruff" .lint ["check"] .tomlConfig .path)
    rfl hnull
  refine ⟨_,List.mem_cons_self,rfl,hnull,?_,?_⟩
  · rw [hargs, hflat]
    decide +kernel
  · rw [hflat] at hall
    obtain ⟨path,_,hleaf,hdenotes⟩ := hall _ List.mem_cons_self
    obtain ⟨_,_,_,hmem,rfl,hleaf⟩ := Settings.LeafAt.object_iff.mp hleaf
    cases List.mem_singleton.mp hmem
    obtain ⟨_,_,_,hmem,rfl,hleaf⟩ := Settings.LeafAt.object_iff.mp hleaf
    cases List.mem_singleton.mp hmem
    obtain ⟨_,_,_,hmem,rfl,hleaf⟩ := Settings.LeafAt.object_iff.mp hleaf
    cases List.mem_singleton.mp hmem
    obtain ⟨rfl,_⟩ := (Settings.LeafAt.leaf_iff rfl).mp hleaf
    exact hdenotes 1 (by decide +kernel) (written_ruleList 0)

def ignoredNew : List (String × Json) := [("per-file-ignores",.object [("tests\\new",ruleList)])]

def newText : List Char := configText ("per-file-ignores.\"tests\\new\"",ruleList)

theorem names_new : Names (Settings.normalizeChars "tests\\new".toList) "tests\new" := by
  have hescaped : ∀ c ∈ "tests\new".toList,
      Escaped (if c = '\n' then ['\\', 'n'] else [c]) c := by
    intro c hc
    split_ifs with hfeed
    · exact hfeed ▸ escaped_letter (p := ('n', '\n')) (by decide)
    · have hall : ("tests\new".toList.all fun c => c == '\n' || isBasicChar c) = true := by decide
      have hbasic := List.all_eq_true.mp hall c hc
      exact .plain ((Bool.or_eq_true _ _).mp hbasic |>.resolve_left (by simpa using hfeed))
  have h := names_quoted hescaped
  rwa [String.ofList_toList] at h

theorem parseWithin_newText {limit : Nat} (hlimit : 2 < limit) : parseWithin limit newText =
    .ok (nested ["per-file-ignores","tests\new"] ruleList) := by
  have hwritten : Written (limit - 1) ruleList := (written_ruleList 0).mono (by omega)
  obtain ⟨t,ht,hspells⟩ := exists_literal hwritten (show 1 < limit by omega)
  have hnames : ∀ p ∈ [(Settings.normalizeChars "per-file-ignores".toList,"per-file-ignores"),
      (Settings.normalizeChars "tests\\new".toList,"tests\new")], Names p.1 p.2 := by
    have hfirst := names_segment (s := "per-file-ignores".toList) (by decide +kernel)
    have hname : String.ofList (segmentText "per-file-ignores".toList) = "per-file-ignores" := by
      decide +kernel
    rw [hname] at hfirst
    simpa using ⟨hfirst,names_new⟩
  have hread := parseWithin_assignment (List.cons_ne_nil _ _) hnames hlimit hspells
  cases ht
  exact hread

/-- The backslash is not escaped, and the leaf that is read has another path. -/
theorem backslash_read_as_escape :
    NullFree (.object ignoredNew) ∧
    ("per-file-ignores.\"tests\\new\"",ruleList) ∈ Settings.flatten (.object ignoredNew) ∧
    Settings.LeafAt (.object ignoredNew) ["per-file-ignores","tests\\new"] ruleList ∧
    (∀ limit, 2 < limit → parseWithin limit newText =
      .ok (nested ["per-file-ignores","tests\new"] ruleList)) ∧
    ∀ depth, ¬ Denotes newText depth (["per-file-ignores","tests\\new"].map segment) ruleList := by
  refine ⟨?_,by decide +kernel,.field List.mem_cons_self (.field List.mem_cons_self (.here rfl)),
    fun _ => parseWithin_newText,fun depth hdenotes => ?_⟩
  · refine .object fun f hf => List.mem_singleton.mp hf ▸ ?_
    refine .object fun f hf => List.mem_singleton.mp hf ▸ ?_
    exact nullFree_ruleList
  · have h := hdenotes.reads (depth + 3) (by omega)
    rw [parseWithin_newText (by omega)] at h
    exact absurd (Except.ok.inj h) (by decide +kernel)

-- neither a deletion character nor a number without a signed word can be read back
example : (Toml.parse (configText ("exclude",.string "\x7f"))).isOk = false := by decide +kernel

example : (Toml.parse (configText ("length",.number (.int 9223372036854775808)))).isOk = false := by
  decide +kernel

end Adapter
end Workbench

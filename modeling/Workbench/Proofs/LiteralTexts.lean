import Workbench.Json.Reader
import Workbench.Proofs.ConfigArguments
set_option autoImplicit false

/-! The literals of values, taken as texts alone. A value has no literal just when there is a null
in it, however deep it stands. And a literal belongs to one value only. That holds also before
whatever may follow a value in an array or a table, which is what carries it through nested values:
the quotes of a string close where the reader of JSON says they do, so that separators and brackets
within it end no part. -/

namespace Workbench

/-- Whole numbers, and doubles in normal form. -/
def Number.IsNormal : Number → Prop
  | .int _ => True
  | .float d => d.IsNormal

namespace Json

theorem hexValue?_hexDigit : ∀ n < 16,
    Text.hexValue? (hexDigit n) = some n ∧ (hexDigit n).utf8Size = 1 := by decide

theorem checkHex_control {n : Nat} (hn : n < 32) (offset : Nat) (r : List Char) :
    checkHex offset ('0' :: '0' :: hexDigit (n / 16) :: hexDigit (n % 16) :: r) = none := by
  obtain ⟨hhigh,hhighSize⟩ := hexValue?_hexDigit (n / 16) (by omega)
  obtain ⟨hlow,hlowSize⟩ := hexValue?_hexDigit (n % 16) (by omega)
  have hzero : Text.hexValue? '0' = some 0 ∧ '0'.utf8Size = 1 := by decide
  simp [checkHex, byteLength, hhigh, hhighSize, hlow, hlowSize, hzero]

theorem exists_scanString_escapeChar (c : Char) (offset : Nat) (done r : List Char) :
    ∃ o, scanString .plain offset done (escapeChar c ++ r) = scanString .plain o (c :: done) r := by
  unfold escapeChar
  split_ifs with hquote hslash hfeed hreturn htab hback hform hlow
  · obtain rfl := beq_iff_eq.mp hquote
    exact ⟨_,rfl⟩
  · obtain rfl := beq_iff_eq.mp hslash
    exact ⟨_,rfl⟩
  · obtain rfl := beq_iff_eq.mp hfeed
    exact ⟨_,rfl⟩
  · obtain rfl := beq_iff_eq.mp hreturn
    exact ⟨_,rfl⟩
  · obtain rfl := beq_iff_eq.mp htab
    exact ⟨_,rfl⟩
  · obtain rfl : c = '\x08' := Char.toNat_inj.mp (beq_iff_eq.mp hback)
    exact ⟨_,rfl⟩
  · obtain rfl : c = '\x0c' := Char.toNat_inj.mp (beq_iff_eq.mp hform)
    exact ⟨_,rfl⟩
  · -- four hexadecimal digits give the number of a control character back
    obtain ⟨hhigh,_⟩ := hexValue?_hexDigit (c.toNat / 16) (by omega)
    obtain ⟨hdigit,_⟩ := hexValue?_hexDigit (c.toNat % 16) (by omega)
    have hvalue : c.toNat / 16 * 16 + c.toNat % 16 = c.toNat := by omega
    have hclose : ∀ o, closeHex c.toNat none o = .ok (some c,.plain) := fun o => by
      simp only [closeHex]
      rw [if_neg (by omega), if_neg (by omega), Char.ofNat_toNat]
    have hzero : Text.hexValue? '0' = some 0 := by decide
    refine ⟨offset + '\\'.utf8Size + 'u'.utf8Size + '0'.utf8Size + '0'.utf8Size +
      (hexDigit (c.toNat / 16)).utf8Size + (hexDigit (c.toNat % 16)).utf8Size,?_⟩
    simp [scanString, checkHex_control hlow, hzero, hhigh, hdigit, hvalue, hclose]
  · refine ⟨offset + c.utf8Size,?_⟩
    simp [scanString, hquote, hslash, hlow]

theorem exists_scanString_quoted (s : List Char) (offset : Nat) (done r : List Char) :
    ∃ o, scanString .plain offset done (s.flatMap escapeChar ++ '"' :: r) =
      .ok (done.reverse ++ s,⟨o,r⟩) := by
  induction s generalizing offset done with
  | nil => exact ⟨offset + '"'.utf8Size,by simp [scanString]⟩
  | cons c s ih =>
    obtain ⟨o₁,hc⟩ := exists_scanString_escapeChar c offset done (s.flatMap escapeChar ++ '"' :: r)
    obtain ⟨o₂,hs⟩ := ih o₁ (c :: done)
    refine ⟨o₂,?_⟩
    rw [List.flatMap_cons, List.append_assoc, hc, hs, List.reverse_cons, List.append_assoc]
    rfl

theorem quote_unique {s s' r q : List Char} (h : quote s ++ r = quote s' ++ q) :
    s = s' ∧ r = q := by
  obtain ⟨o,ho⟩ := exists_scanString_quoted s 0 [] r
  obtain ⟨o',ho'⟩ := exists_scanString_quoted s' 0 [] q
  have htext : s.flatMap escapeChar ++ '"' :: r = s'.flatMap escapeChar ++ '"' :: q := by
    simpa [quote] using h
  rw [htext, ho'] at ho
  cases ho
  exact ⟨rfl,rfl⟩

/-- The one value is the other, or stands in it as an item or under a key, at any depth. -/
inductive Holds : Json → Json → Prop where
  | here (v : Json) : Holds v v
  | item {items : List Json} {v w : Json} : v ∈ items → Holds v w → Holds (.array items) w
  | field {fs : List (String × Json)} {f : String × Json} {w : Json} : f ∈ fs → Holds f.2 w →
      Holds (.object fs) w

/-- The numbers in a value, at any depth, are in normal form. -/
def Normal (v : Json) : Prop := ∀ n, v.Holds (.number n) → n.IsNormal

theorem normal_number {n : Number} : Normal (.number n) ↔ n.IsNormal := by
  refine ⟨fun h => h n (.here _),fun h m hm => ?_⟩
  cases hm
  exact h

theorem normal_array {items : List Json} : Normal (.array items) ↔ ∀ v ∈ items, v.Normal := by
  refine ⟨fun h v hv n hn => h n (.item hv hn),fun h n hn => ?_⟩
  cases hn with
  | item hv hn => exact h _ hv n hn

theorem normal_object {fs : List (String × Json)} :
    Normal (.object fs) ↔ ∀ f ∈ fs, f.2.Normal := by
  refine ⟨fun h f hf n hn => h n (.field hf hn),fun h n hn => ?_⟩
  cases hn with
  | field hf hn => exact h _ hf n hn

end Json

namespace Adapter

open Json

mutual
theorem nullFree_of_not_holds : ∀ {v : Json}, ¬ v.Holds .null → NullFree v
  | .null, h => absurd (.here _) h
  | .bool b, _ => .bool b
  | .number n, _ => .number n
  | .string s, _ => .string s
  | .array _, h => .array (nullFree_items fun _ hv hnull => h (.item hv hnull))
  | .object _, h => .object (nullFree_fields fun _ hf hnull => h (.field hf hnull))

theorem nullFree_items : ∀ {items : List Json}, (∀ v ∈ items, ¬ v.Holds .null) →
    ∀ v ∈ items, NullFree v
  | [], _ => fun _ hv => absurd hv List.not_mem_nil
  | _ :: _, h => List.forall_mem_cons.mpr
      ⟨nullFree_of_not_holds (List.forall_mem_cons.mp h).1,
        nullFree_items (List.forall_mem_cons.mp h).2⟩

theorem nullFree_fields : ∀ {fs : List (String × Json)}, (∀ f ∈ fs, ¬ f.2.Holds .null) →
    ∀ f ∈ fs, NullFree f.2
  | [], _ => fun _ hf => absurd hf List.not_mem_nil
  | (_,_) :: _, h => List.forall_mem_cons.mpr
      ⟨nullFree_of_not_holds (List.forall_mem_cons.mp h).1,
        nullFree_fields (List.forall_mem_cons.mp h).2⟩
end

theorem tomlItems?_eq_none {items : List Json} {v : Json} (hv : v ∈ items)
    (h : tomlLiteral? v = none) : tomlItems? items = none := by
  induction hv with
  | head => rw [tomlItems?, h]
  | tail w _ ih =>
    rw [tomlItems?, ih]
    cases tomlLiteral? w <;> rfl

theorem tomlFields?_eq_none {fs : List (String × Json)} {f : String × Json} (hf : f ∈ fs)
    (h : tomlLiteral? f.2 = none) : tomlFields? fs = none := by
  induction hf with
  | head => rw [tomlFields?, h]
  | tail g _ ih =>
    rw [tomlFields?, ih]
    cases tomlLiteral? g.2 <;> rfl

theorem tomlLiteral?_eq_none {v w : Json} (h : v.Holds w) (hw : tomlLiteral? w = none) :
    tomlLiteral? v = none := by
  induction h with
  | here _ => exact hw
  | item hv _ ih => rw [tomlLiteral?, tomlItems?_eq_none hv (ih hw)]; rfl
  | field hf _ ih => rw [tomlLiteral?, tomlFields?_eq_none hf (ih hw)]; rfl

theorem tomlLiteral?_eq_none_iff {v : Json} : tomlLiteral? v = none ↔ v.Holds .null := by
  refine ⟨fun h => ?_,fun h => tomlLiteral?_eq_none h rfl⟩
  by_contra hnull
  have hsome := (nullFree_of_not_holds hnull).isSome_tomlLiteral?
  rw [h] at hsome
  cases hsome

theorem forall₂_of_tomlItems {items : List Json} {ts : List (List Char)}
    (h : tomlItems? items = some ts) : List.Forall₂ (fun v t => tomlLiteral? v = some t) items ts := by
  induction items generalizing ts with
  | nil =>
    cases h
    exact .nil
  | cons v items ih =>
    rw [tomlItems?] at h
    split at h
    next t ts' ht hts =>
      cases h
      exact .cons ht (ih hts)
    next => cases h

theorem forall₂_of_tomlFields {fs : List (String × Json)} {ts : List (List Char)}
    (h : tomlFields? fs = some ts) :
    List.Forall₂ (fun f t => ∃ u, tomlLiteral? f.2 = some u ∧
      t = quote f.1.toList ++ ([' ', '=', ' '] ++ u)) fs ts := by
  induction fs generalizing ts with
  | nil =>
    cases h
    exact .nil
  | cons f fs ih =>
    rw [tomlFields?] at h
    split at h
    next u ts' hu hts =>
      cases h
      exact .cons ⟨u,hu,List.append_assoc ..⟩ (ih hts)
    next => cases h

end Adapter

namespace Toml

open Scan Json

theorem takes_float_render {d : Double} (hd : d.IsNormal) {r : List Char} (hr : Follows r) :
    float.Takes (NumberLayout.json.render d ++ r) (.number (.float d)) r := by
  obtain ⟨l,hl,htext,hvalue⟩ := exists_layout hd
  rw [htext, List.append_assoc]
  exact takes_float d.negative hl hr hvalue

theorem float_misses_intText (n : Int) {r : List Char} (hr : Follows r) :
    float.Misses (intText n ++ r) := by
  obtain ⟨negative,m,htext,_⟩ := exists_intText n
  rw [htext, List.append_assoc]
  exact float_misses negative (isWhole_toDigits m) hr

theorem intText_unique {n m : Int} {r q : List Char} (hr : Follows r) (hq : Follows q)
    (h : intText n ++ r = intText m ++ q) : n = m ∧ r = q := by
  obtain ⟨a,k,hn,rfl⟩ := exists_intText n
  obtain ⟨b,l,hm,rfl⟩ := exists_intText m
  rw [hn, hm, List.append_assoc, List.append_assoc] at h
  have htakes := takes_wholeNumber a (isWhole_toDigits k) hr.endsDigits
  rw [h] at htakes
  obtain ⟨hparts,hrest⟩ := htakes.unique (takes_wholeNumber b (isWhole_toDigits l) hq.endsDigits)
  obtain ⟨rfl,hdigits⟩ := Prod.mk.inj hparts
  have hkl := congrArg digitsValue hdigits
  rw [digitsValue_toDigits, digitsValue_toDigits] at hkl
  exact ⟨by rw [hkl],hrest⟩

theorem numberText_unique {n m : Number} (hn : n.IsNormal) (hm : m.IsNormal) {r q : List Char}
    (hr : Follows r) (hq : Follows q)
    (h : numberText .json n ++ r = numberText .json m ++ q) : n = m ∧ r = q := by
  cases n with
  | int i =>
    cases m with
    | int j =>
      obtain ⟨rfl,hrest⟩ := intText_unique hr hq h
      exact ⟨rfl,hrest⟩
    | float d =>
      exact absurd (h ▸ float_misses_intText i hr) (takes_float_render hm hq).not_misses
  | float d =>
    have htakes := takes_float_render hn hr
    cases m with
    | int j => exact absurd (h ▸ float_misses_intText j hq) htakes.not_misses
    | float e =>
      rw [show NumberLayout.json.render d ++ r = NumberLayout.json.render e ++ q from h] at htakes
      obtain ⟨hvalue,hrest⟩ := htakes.unique (takes_float_render hm hq)
      cases hvalue
      exact ⟨rfl,hrest⟩

theorem exists_numberText {n : Number} (hn : n.IsNormal) : ∃ negative ds rest,
    IsWhole ds ∧ numberText .json n = signText negative ++ (ds ++ rest) := by
  cases n with
  | int i =>
    obtain ⟨negative,m,htext,_⟩ := exists_intText i
    exact ⟨negative,_,[],isWhole_toDigits m,by rw [List.append_nil]; exact htext⟩
  | float d =>
    obtain ⟨l,hl,htext,_⟩ := exists_layout hn
    exact ⟨d.negative,_,_,hl.whole,htext⟩

variable {α : Type}

/-- Before whatever may follow a value, the text stands for no other part. -/
def Tells (Part : α → List Char → Prop) (a : α) (t : List Char) : Prop :=
  ∀ {b : α} {u r q : List Char}, Part b u → Follows r → Follows q → t ++ r = u ++ q →
    a = b ∧ r = q

def IsClosing (c : Char) : Prop := c = ']' ∨ c = '\x7d'

theorem IsClosing.follows {close : Char} (h : IsClosing close) (r : List Char) :
    Follows (close :: r) := follows_cons.mpr (.inr h)

theorem IsClosing.ne_comma {close : Char} (h : IsClosing close) : close ≠ ',' := by
  rcases h with rfl | rfl <;> decide

variable {Part : α → List Char → Prop} {as bs : List α} {ts us : List (List Char)} {close : Char}
  {r q : List Char}

theorem follows_further (hclose : IsClosing close) (ts : List (List Char)) (r : List Char) :
    Follows (ts.flatMap ([',', ' '] ++ ·) ++ close :: r) := by
  cases ts with
  | nil => exact hclose.follows r
  | cons t ts => exact follows_cons.mpr (.inl rfl)

theorem further_unique (hclose : IsClosing close) (has : List.Forall₂ (Tells Part) as ts)
    (hbs : List.Forall₂ Part bs us)
    (h : ts.flatMap ([',', ' '] ++ ·) ++ close :: r = us.flatMap ([',', ' '] ++ ·) ++ close :: q) :
    as = bs ∧ r = q := by
  induction has generalizing bs us with
  | nil =>
    cases hbs with
    | nil => exact ⟨rfl,(List.cons.inj h).2⟩
    | cons => exact absurd (List.cons.inj h).1 hclose.ne_comma
  | cons ha has ih =>
    cases hbs with
    | nil => exact absurd (List.cons.inj h).1.symm hclose.ne_comma
    | cons hb hbs =>
      simp only [List.flatMap_cons, List.append_assoc, List.append_cancel_left_eq] at h
      obtain ⟨rfl,hrest⟩ := ha hb (follows_further hclose _ _) (follows_further hclose _ _) h
      obtain ⟨rfl,hrest⟩ := ih hbs hrest
      exact ⟨rfl,hrest⟩

theorem joined_unique (hclose : IsClosing close)
    (hpart : ∀ {b u}, Part b u → ∀ i, Stops (· == close) (u ++ i))
    (has : List.Forall₂ (fun a t => Part a t ∧ Tells Part a t) as ts)
    (hbs : List.Forall₂ Part bs us)
    (h : Text.join [',', ' '] ts ++ close :: r = Text.join [',', ' '] us ++ close :: q) :
    as = bs ∧ r = q := by
  cases has with
  | nil =>
    cases hbs with
    | nil => exact ⟨rfl,(List.cons.inj h).2⟩
    | cons hb hbs =>
      rw [join_cons, List.append_assoc] at h
      exact absurd (stops_cons.mp (h ▸ hpart hb _)) (by simp)
  | cons ha has =>
    cases hbs with
    | nil =>
      rw [join_cons, List.append_assoc] at h
      exact absurd (stops_cons.mp (h ▸ hpart ha.1 _)) (by simp)
    | cons hb hbs =>
      rw [join_cons, join_cons, List.append_assoc, List.append_assoc] at h
      obtain ⟨rfl,hrest⟩ := ha.2 hb (follows_further hclose _ _) (follows_further hclose _ _) h
      obtain ⟨rfl,hrest⟩ := further_unique hclose (has.imp fun _ _ h => h.2) hbs hrest
      exact ⟨rfl,hrest⟩

end Toml

namespace Adapter

open Json Scan Toml

structure Spelled (v : Json) (t : List Char) : Prop where
  normal : v.Normal
  literal : tomlLiteral? v = some t

def SpelledField (f : String × Json) (t : List Char) : Prop :=
  ∃ u, Spelled f.2 u ∧ t = quote f.1.toList ++ ([' ', '=', ' '] ++ u)

theorem Spelled.items {items : List Json} {t : List Char} (h : Spelled (.array items) t) :
    ∃ ts, t = '[' :: (Text.join [',', ' '] ts ++ [']']) ∧ List.Forall₂ Spelled items ts := by
  obtain ⟨ts,hts,htext⟩ := Option.map_eq_some_iff.mp h.literal
  have hall := (List.forall₂_and_left _ _).mpr
    ⟨normal_array.mp h.normal,forall₂_of_tomlItems hts⟩
  exact ⟨ts,htext.symm,hall.imp fun _ _ h => ⟨h.1,h.2⟩⟩

theorem Spelled.fields {fs : List (String × Json)} {t : List Char} (h : Spelled (.object fs) t) :
    ∃ ts, t = '\x7b' :: (Text.join [',', ' '] ts ++ ['\x7d']) ∧
      List.Forall₂ SpelledField fs ts := by
  obtain ⟨ts,hts,htext⟩ := Option.map_eq_some_iff.mp h.literal
  have hall := (List.forall₂_and_left _ _).mpr
    ⟨normal_object.mp h.normal,forall₂_of_tomlFields hts⟩
  exact ⟨ts,htext.symm,hall.imp fun _ _ ⟨hnormal,u,hu,ht⟩ => ⟨u,⟨hnormal,hu⟩,ht⟩⟩

def opens : Json → Char → Bool
  | .null, _ => false
  | .bool b, c => c == if b then 't' else 'f'
  | .number _, c => c.isDigit || c == '-'
  | .string _, c => c == '"'
  | .array _, c => c == '['
  | .object _, c => c == '\x7b'

theorem Spelled.exists_head {v : Json} {t : List Char} (h : Spelled v t) :
    ∃ c i, t = c :: i ∧ opens v c := by
  cases v with
  | null => cases h.literal
  | bool b =>
    cases b with
    | true => exact ⟨'t',_,(Option.some.inj h.literal).symm,rfl⟩
    | false => exact ⟨'f',_,(Option.some.inj h.literal).symm,rfl⟩
  | number n =>
    obtain ⟨negative,ds,rest,hds,htext⟩ := exists_numberText (normal_number.mp h.normal)
    obtain ⟨c,i,hhead,hc⟩ := exists_head_number (r := rest) negative hds
    refine ⟨c,i,?_,by simpa [opens] using hc⟩
    rw [← hhead, ← htext]
    exact (Option.some.inj h.literal).symm
  | string s => exact ⟨'"',_,(Option.some.inj h.literal).symm,rfl⟩
  | array items =>
    obtain ⟨ts,rfl,_⟩ := h.items
    exact ⟨'[',_,rfl,rfl⟩
  | object fs =>
    obtain ⟨ts,rfl,_⟩ := h.fields
    exact ⟨'\x7b',_,rfl,rfl⟩

theorem Spelled.opens_head {v : Json} {c : Char} {t i r : List Char} (h : Spelled v t)
    (ht : c :: i = t ++ r) : opens v c := by
  obtain ⟨d,j,rfl,hd⟩ := h.exists_head
  rwa [(List.cons.inj ht).1]

theorem exists_bool_of_opens {b : Bool} {v : Json} (h : opens v (if b then 't' else 'f')) :
    v = .bool b := by
  cases v with
  | bool a => revert a b; decide
  | _ => cases b <;> cases h

theorem exists_number_of_opens {c : Char} (hc : c.isDigit || c == '-') {v : Json}
    (h : opens v c) : ∃ n, v = .number n := by
  cases v with
  | number n => exact ⟨n,rfl⟩
  | null => cases h
  | bool b => cases b <;> cases beq_iff_eq.mp h <;> cases hc
  | _ =>
    cases beq_iff_eq.mp h
    cases hc

theorem exists_string_of_opens {v : Json} (h : opens v '"') : ∃ s, v = .string s := by
  cases v with
  | string s => exact ⟨s,rfl⟩
  | bool b => cases b <;> cases h
  | _ => cases h

theorem exists_array_of_opens {v : Json} (h : opens v '[') : ∃ items, v = .array items := by
  cases v with
  | array items => exact ⟨items,rfl⟩
  | bool b => cases b <;> cases h
  | _ => cases h

theorem exists_object_of_opens {v : Json} (h : opens v '\x7b') : ∃ fs, v = .object fs := by
  cases v with
  | object fs => exact ⟨fs,rfl⟩
  | bool b => cases b <;> cases h
  | _ => cases h

theorem Spelled.stops_closing {v : Json} {t : List Char} (h : Spelled v t) (i : List Char) :
    Stops (· == ']') (t ++ i) := by
  obtain ⟨c,j,rfl,hc⟩ := h.exists_head
  refine stops_cons.mpr (beq_eq_false_iff_ne.mpr ?_)
  rintro rfl
  cases v with
  | bool b => cases b <;> cases hc
  | _ => cases hc

theorem SpelledField.stops_closing {f : String × Json} {t : List Char} (h : SpelledField f t)
    (i : List Char) : Stops (· == '\x7d') (t ++ i) := by
  obtain ⟨u,_,rfl⟩ := h
  exact stops_cons.mpr (by decide)

theorem tells_field {f : String × Json} {u : List Char} (h : Tells Spelled f.2 u) :
    Tells SpelledField f (quote f.1.toList ++ ([' ', '=', ' '] ++ u)) := by
  rintro g _ r q ⟨w,hw,rfl⟩ hr hq htext
  simp only [List.append_assoc] at htext
  obtain ⟨hkey,hvalue⟩ := quote_unique htext
  obtain ⟨hfield,hrest⟩ := h hw hr hq (List.append_cancel_left hvalue)
  exact ⟨Prod.ext (String.toList_inj.mp hkey) hfield,hrest⟩

/-- A literal is told from all others, before whatever may follow a value. -/
theorem NullFree.tells {v : Json} (hv : NullFree v) {t : List Char} (ht : Spelled v t) :
    Tells Spelled v t := by
  -- the first character gives the kind of the other value away
  induction hv generalizing t with
  | bool b =>
    intro w u r q hw _ _ h
    obtain ⟨c,i,rfl,hc⟩ := ht.exists_head
    obtain rfl := exists_bool_of_opens (beq_iff_eq.mp hc ▸ hw.opens_head h)
    cases ht.literal.symm.trans hw.literal
    exact ⟨rfl,List.append_cancel_left h⟩
  | number n =>
    intro w u r q hw hr hq h
    obtain ⟨c,i,rfl,hc⟩ := ht.exists_head
    obtain ⟨m,rfl⟩ := exists_number_of_opens hc (hw.opens_head h)
    rw [← Option.some.inj ht.literal, ← Option.some.inj hw.literal] at h
    obtain ⟨rfl,hrest⟩ := numberText_unique (normal_number.mp ht.normal)
      (normal_number.mp hw.normal) hr hq h
    exact ⟨rfl,hrest⟩
  | string s =>
    intro w u r q hw _ _ h
    rw [← Option.some.inj ht.literal] at h
    obtain ⟨s',rfl⟩ := exists_string_of_opens (hw.opens_head h)
    rw [← Option.some.inj hw.literal] at h
    obtain ⟨hs,hrest⟩ := quote_unique h
    exact ⟨congrArg _ (String.toList_inj.mp hs),hrest⟩
  | array _ ih =>
    intro w u r q hw hr hq h
    obtain ⟨ts,rfl,hts⟩ := ht.items
    obtain ⟨items,rfl⟩ := exists_array_of_opens (hw.opens_head h)
    obtain ⟨us,rfl,hus⟩ := hw.items
    have hall := (List.forall₂_and_left _ _).mpr ⟨ih,hts⟩
    simp only [List.cons_append, List.append_assoc, List.nil_append] at h
    obtain ⟨rfl,hrest⟩ := joined_unique (.inl rfl) Spelled.stops_closing
      (hall.imp fun _ _ h => ⟨h.2,h.1 h.2⟩) hus (List.cons.inj h).2
    exact ⟨rfl,hrest⟩
  | object _ ih =>
    intro w u r q hw hr hq h
    obtain ⟨ts,rfl,hts⟩ := ht.fields
    obtain ⟨fs,rfl⟩ := exists_object_of_opens (hw.opens_head h)
    obtain ⟨us,rfl,hus⟩ := hw.fields
    have hall := (List.forall₂_and_left _ _).mpr ⟨ih,hts⟩
    simp only [List.cons_append, List.append_assoc, List.nil_append] at h
    obtain ⟨rfl,hrest⟩ := joined_unique (.inr rfl) SpelledField.stops_closing
      (hall.imp fun _ _ ⟨ih,u,hu,ht⟩ => ⟨⟨u,hu,ht⟩,ht ▸ tells_field (ih hu)⟩) hus
      (List.cons.inj h).2
    exact ⟨rfl,hrest⟩

/-- A value has no literal just when a null occurs in it; two others, their numbers in normal form,
have the same literal only if they are the same. -/
theorem literal_of_one_value :
    (∀ v, tomlLiteral? v = none ↔ v.Holds .null) ∧
    ∀ v w : Json, v.Normal → w.Normal → ¬ v.Holds .null → ¬ w.Holds .null →
      tomlLiteral? v = tomlLiteral? w → v = w := by
  refine ⟨fun v => tomlLiteral?_eq_none_iff,fun v w hv hw hfree hfree' h => ?_⟩
  obtain ⟨t,ht⟩ := Option.ne_none_iff_exists'.mp (mt tomlLiteral?_eq_none_iff.mp hfree)
  have htells : Tells Spelled v t := (nullFree_of_not_holds hfree).tells ⟨hv,ht⟩
  exact (htells ⟨hw,h ▸ ht⟩ follows_nil follows_nil rfl).1

def bracketed : Json :=
  .array [.string "], [",.object [("k = 1, \x7b",.number (.float ⟨false,2 ^ 52,-53⟩))]]

def bracketedText : List Char := "[\"], [\", \x7b\"k = 1, \x7b\" = 0.5\x7d]".toList

theorem literal_of_one_value_bracketed :
    bracketed.Normal ∧ ¬ bracketed.Holds .null ∧ tomlLiteral? bracketed = some bracketedText ∧
      bracketed = .array [.string (String.ofList [']', ',', ' ', '[']),
        Json.ofFields [("k = 1, \x7b",.number (.float ⟨false,2 ^ 52,-53⟩))]] := by
  have hhalf : Double.IsNormal ⟨false,2 ^ 52,-53⟩ := by constructor <;> decide
  have hnormal : bracketed.Normal := by
    refine normal_array.mpr (List.forall_mem_cons.mpr ⟨nofun,List.forall_mem_singleton.mpr ?_⟩)
    exact normal_object.mpr (List.forall_mem_singleton.mpr (normal_number.mpr hhalf))
  have htext : tomlLiteral? bracketed = some bracketedText := by decide +kernel
  have hfree : ¬ bracketed.Holds .null := fun h => by
    rw [(literal_of_one_value.1 bracketed).mpr h] at htext
    cases htext
  exact ⟨hnormal,hfree,htext,
    literal_of_one_value.2 bracketed _ hnormal hnormal hfree hfree (by decide +kernel)⟩

end Adapter
end Workbench

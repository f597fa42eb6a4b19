import Workbench.Format.Toml.Value
import Workbench.Proofs.DecimalTexts
import Workbench.Proofs.Scanning
set_option autoImplicit false

namespace Workbench.Toml

open Scan

/-- The text ends, or the next character ends the value in an array or a table. -/
def Follows (r : List Char) : Prop := ∀ c ∈ r.head?, c = ',' ∨ c = ']' ∨ c = '\x7d'

@[simp] theorem follows_nil : Follows [] := by
  intro c hc
  cases hc

@[simp] theorem follows_cons {c : Char} {r : List Char} :
    Follows (c :: r) ↔ c = ',' ∨ c = ']' ∨ c = '\x7d' :=
  ⟨fun h => h c rfl,fun h d hd => by cases hd; exact h⟩

theorem Follows.stops {r : List Char} (h : Follows r) {wanted : Char → Bool}
    (hw : wanted ',' = false ∧ wanted ']' = false ∧ wanted '\x7d' = false) : Stops wanted r := by
  intro c hc
  rcases h c hc with rfl | rfl | rfl
  · exact hw.1
  · exact hw.2.1
  · exact hw.2.2

variable {ds r : List Char}

theorem ne_of_isDigit {c d : Char} (hd : d.isDigit) (hc : c.isDigit = false) : d ≠ c := by
  rintro rfl
  exact Bool.false_ne_true (hc.symm.trans hd)

structure EndsDigits (r : List Char) : Prop where
  digit : Stops Char.isDigit r
  mark : Stops (· == '_') r

theorem Follows.endsDigits (h : Follows r) : EndsDigits r :=
  ⟨h.stops (by decide),h.stops (by decide)⟩

theorem endsDigits_cons {c : Char} (h : c.isDigit = false ∧ c ≠ '_') (r : List Char) :
    EndsDigits (c :: r) :=
  ⟨stops_cons.mpr h.1,stops_cons.mpr (by simpa using h.2)⟩

theorem takes_digitTail (hds : ∀ c ∈ ds, c.isDigit) (hr : EndsDigits r) :
    (digitTail Char.isDigit).Takes (ds ++ r) ds r := by
  have hmiss : ((char Char.isDigit).or (do let _ ← one '_'; must (char Char.isDigit))).Misses r :=
    hr.digit.misses_char.or (misses_one hr.mark).bind
  have hpieces := Reps.of_pieces (fun _ => True) (ds.map fun d => ([d],d))
    (by
      intro p hp
      obtain ⟨d,hd,rfl⟩ := List.mem_map.mp hp
      exact ⟨by simp,fun _ => trivial,fun r _ => (takes_char (hds d hd) r).or⟩) hmiss trivial
  have htexts : (ds.map fun d => ([d],d)).flatMap (·.1) = ds := by simp [List.flatMap_map]
  have hresults : (ds.map fun d => ([d],d)).map (·.2) = ds := by simp [Function.comp_def]
  rw [htexts, hresults] at hpieces
  exact hpieces.takes_many

theorem takes_digitRun (hne : ds ≠ []) (hds : ∀ c ∈ ds, c.isDigit) (hr : EndsDigits r) :
    (digitRun Char.isDigit).Takes (ds ++ r) ds r := by
  obtain ⟨d,ds,rfl⟩ := List.exists_cons_of_ne_nil hne
  obtain ⟨hd,hds⟩ := List.forall_mem_cons.mp hds
  exact (takes_char hd _).bind ((takes_digitTail hds hr).bind (takes_pure _ r))

theorem numberOf_eq (hds : ∀ c ∈ ds, c.isDigit) : numberOf 10 ds = digitsValue ds := by
  rw [numberOf, digitsValue, Nat.ofDigitChars_eq_foldl]
  refine List.foldl_ext _ _ 0 fun n d hd => ?_
  rw [hexValue, if_pos (hds d hd), Nat.mul_comm]
  rfl

theorem takes_sign (negative : Bool) {i : List Char}
    (hi : Stops (fun x => x == '+' || x == '-') i) :
    sign.Takes (signText negative ++ i) negative i := by
  cases negative with
  | true => exact (takes_char (by decide) i).maybe.bind (takes_pure true i)
  | false => exact hi.misses_char.maybe.bind (takes_pure false i)

theorem stops_sign (hds : ∀ c ∈ ds, c.isDigit) (hne : ds ≠ []) (r : List Char) :
    Stops (fun x => x == '+' || x == '-') (ds ++ r) := by
  obtain ⟨d,ds,rfl⟩ := List.exists_cons_of_ne_nil hne
  have hd := hds d List.mem_cons_self
  refine stops_cons.mpr (Bool.eq_false_iff.mpr fun h => ?_)
  simp only [Bool.or_eq_true, beq_iff_eq] at h
  rcases h with rfl | rfl <;> exact absurd hd (by decide)

theorem takes_wholeNumber (negative : Bool) (hds : IsWhole ds) (hr : EndsDigits r) :
    wholeNumber.Takes (signText negative ++ (ds ++ r)) (negative,ds) r := by
  refine (takes_sign negative (stops_sign hds.digits hds.ne_nil r)).bind ?_
  rcases hds.leading with rfl | ⟨d,rest,rfl,hd⟩
  · have hzero : (char fun x => x.isDigit && x != '0').Misses (['0'] ++ r) :=
      Stops.misses_char (stops_cons.mpr (by decide))
    exact (hzero.bind.or_takes ((takes_char (by decide) r).map _)).bind (takes_pure _ r)
  · obtain ⟨hdigit,hrest⟩ := List.forall_mem_cons.mp hds.digits
    have hfirst : (char fun x => x.isDigit && x != '0').Takes (d :: rest ++ r) d (rest ++ r) :=
      takes_char (by simp [hdigit, hd]) _
    refine (Takes.or ?_).bind (takes_pure _ r)
    exact hfirst.bind ((takes_digitTail hrest hr).bind (takes_pure _ r))

theorem fixedDigits_cases {n : Nat} (hds : ∀ c ∈ ds, c.isDigit) (hr : Stops Char.isDigit r) :
    (∃ v, (fixedDigits n).Takes (ds ++ r) v (ds.drop n ++ r)) ∨
      (fixedDigits n).Misses (ds ++ r) := by
  rcases Nat.lt_or_ge ds.length n with hlt | hge
  · right
    refine fixedDigits_misses ?_
    obtain ⟨k,rfl⟩ : ∃ k, n = ds.length + (k + 1) := ⟨n - ds.length - 1,by omega⟩
    have hrest : (r.take (k + 1)).takeWhile Char.isDigit = [] := by
      cases r with
      | nil => rfl
      | cons c r => simp [stops_cons.mp hr]
    rw [List.take_append, List.take_of_length_le (by omega), Nat.add_sub_cancel_left,
      List.takeWhile_append_of_pos hds, hrest]
    simp
  · left
    have htake : (ds ++ r).take n = ds.take n := List.take_append_of_le_length hge
    have hdrop : (ds ++ r).drop n = ds.drop n ++ r := List.drop_append_of_le_length hge
    have hall : (ds.take n).takeWhile Char.isDigit = ds.take n := by
      have hdigits : ∀ c ∈ ds.take n, c.isDigit := fun c hc => hds c (List.mem_of_mem_take hc)
      have happend : (ds.take n ++ []).takeWhile Char.isDigit =
          ds.take n ++ [].takeWhile Char.isDigit := List.takeWhile_append_of_pos hdigits
      simpa using happend
    refine ⟨(ds.take n).foldl (fun m d => m * 10 + (d.toNat - 48)) 0,fun o => ⟨o + n,?_⟩⟩
    simp only [fixedDigits, htake, hdrop, hall]
    rw [if_pos (by simpa using hge)]

theorem stops_drop {c : Char} (hc : c.isDigit = false) (hds : ∀ x ∈ ds, x.isDigit)
    (hr : Stops (· == c) r) (n : Nat) : Stops (· == c) (ds.drop n ++ r) := by
  cases hdrop : ds.drop n with
  | nil => simpa using hr
  | cons d rest =>
    have hd : d.isDigit := hds d (List.mem_of_mem_drop (hdrop ▸ List.mem_cons_self))
    exact stops_cons.mpr (beq_eq_false_iff_ne.mpr (ne_of_isDigit hd hc))

theorem dateTime_misses (hds : ∀ c ∈ ds, c.isDigit) (hr : Stops Char.isDigit r)
    (hdate : Stops (· == '-') r) (htime : Stops (· == ':') r) : dateTime.Misses (ds ++ r) := by
  have hdate : fullDate.Misses (ds ++ r) := by
    rcases fixedDigits_cases (n := 4) hds hr with ⟨v,hv⟩ | hmiss
    · exact hv.bind_misses (misses_one (stops_drop (by decide) hds hdate 4)).bind
    · exact hmiss.bind
  have htime : partialTime.Misses (ds ++ r) := by
    rcases fixedDigits_cases (n := 2) hds hr with ⟨v,hv⟩ | hmiss
    · cases hrange : inRange 0 23 v with
      | none => exact (hv.check_misses hrange).bind
      | some hour =>
        exact (hv.check hrange).bind_misses (misses_one (stops_drop (by decide) hds htime 2)).bind
    · exact hmiss.check.bind
  exact hdate.bind.or htime

theorem dateTime_misses_sign (i : List Char) : dateTime.Misses ('-' :: i) := by
  have hdigits : ∀ n, (fixedDigits (n + 1)).Misses ('-' :: i) := fun n => by
    refine fixedDigits_misses ?_
    simp
  exact (hdigits 3).bind.bind.or (hdigits 1).check.bind

theorem dateTime_misses_signed (negative : Bool) (hds : ∀ c ∈ ds, c.isDigit)
    (hr : Stops Char.isDigit r) (hdate : Stops (· == '-') r) (htime : Stops (· == ':') r) :
    dateTime.Misses (signText negative ++ (ds ++ r)) := by
  cases negative with
  | true => exact dateTime_misses_sign _
  | false => exact (dateTime_misses hds hr hdate htime : dateTime.Misses (ds ++ r))

theorem float_misses (negative : Bool) (hds : IsWhole ds) (hr : Follows r) :
    float.Misses (signText negative ++ (ds ++ r)) := by
  have hparts : floatParts.Misses (signText negative ++ (ds ++ r)) := by
    refine (takes_wholeNumber negative hds hr.endsDigits).bind_misses ?_
    have hexponent : exponentPart.Misses r := (hr.stops (by decide)).misses_char.bind
    have hfraction : fractionPart.Misses r := (misses_one (hr.stops (by decide))).bind
    exact hexponent.bind.or hfraction.bind
  have hword : ∀ c w, c.isDigit = false → (word (c :: w)).Misses (ds ++ r) := fun c w hc => by
    refine misses_word fun h => ?_
    obtain ⟨d,rest,rfl⟩ := List.exists_cons_of_ne_nil hds.ne_nil
    obtain ⟨hcd,_⟩ := List.cons_prefix_cons.mp h
    exact ne_of_isDigit (hds.digits d List.mem_cons_self) hc hcd.symm
  have hinfinite : notFinite.Misses (signText negative ++ (ds ++ r)) := by
    refine (takes_sign negative (stops_sign hds.digits hds.ne_nil r)).bind_misses ?_
    exact ((hword 'i' _ (by decide)).or (hword 'n' _ (by decide))).bind
  exact hparts.require.or hinfinite

theorem takes_integer (negative : Bool) (hds : IsWhole ds) (hr : Follows r) {v : Json}
    (hv : inWord (if negative then -(digitsValue ds : Int) else digitsValue ds) = some v) :
    integer.Takes (signText negative ++ (ds ++ r)) v r := by
  have hplain : (require wholeNumber fun p =>
      let n : Int := numberOf 10 p.2
      inWord (if p.1 then -n else n)).Takes (signText negative ++ (ds ++ r)) v r :=
    (takes_wholeNumber negative hds hr.endsDigits).require (by
      rw [numberOf_eq hds.digits]
      exact hv)
  -- no base is marked behind a zero
  have hbase : ∀ x rest, signText negative ++ (ds ++ r) = '0' :: x :: rest →
      x ≠ 'x' ∧ x ≠ 'o' ∧ x ≠ 'b' := by
    intro x rest htext
    cases negative with
    | true => cases htext
    | false =>
      rcases hds.leading with rfl | ⟨d,ds,rfl,hd⟩
      · obtain rfl : r = x :: rest := (List.cons.inj htext).2
        rcases follows_cons.mp hr with rfl | rfl | rfl <;> decide
      · exact absurd (List.cons.inj htext).1 hd
  intro o
  unfold integer
  split
  next rest hrest => exact absurd rfl (hbase _ _ hrest).1
  next rest hrest => exact absurd rfl (hbase _ _ hrest).2.1
  next rest hrest => exact absurd rfl (hbase _ _ hrest).2.2
  next => exact hplain o

theorem exists_head_number (negative : Bool) (hds : IsWhole ds) :
    ∃ x i, signText negative ++ (ds ++ r) = x :: i ∧ (x.isDigit ∨ x = '-') := by
  cases negative with
  | true => exact ⟨'-',_,rfl,.inr rfl⟩
  | false =>
    obtain ⟨d,ds,rfl⟩ := List.exists_cons_of_ne_nil hds.ne_nil
    exact ⟨d,_,rfl,.inl (hds.digits d List.mem_cons_self)⟩

theorem takes_value_of_number {negative : Bool} (hds : IsWhole ds) {v : Json} {rest : List Char}
    (h : number.Takes (signText negative ++ (ds ++ r)) v rest) (array table : Scan Json) :
    (valueWith array table).Takes (signText negative ++ (ds ++ r)) v rest := by
  obtain ⟨x,i,htext,hx⟩ := exists_head_number (r := r) negative hds
  rw [htext] at h ⊢
  refine (takes_anyChar x i).peek.bind ?_
  have hbranch : (x.isDigit || x == '+' || x == '-') = true := by
    rcases hx with hx | rfl
    · simp [hx]
    · decide
  split <;> first
    | exact absurd hx (by decide)
    | rwa [if_pos hbranch]

theorem exists_intText (n : Int) : ∃ negative m,
    Json.intText n = signText negative ++ Nat.toDigits 10 m ∧
      (if negative then -(m : Int) else m) = n := by
  cases n with
  | ofNat m => exact ⟨false,m,rfl,rfl⟩
  | negSucc m => exact ⟨true,m + 1,rfl,rfl⟩

theorem takes_int {n : Int} (hn : Words.isSigned 64 n) (hr : Follows r) (array table : Scan Json) :
    (valueWith array table).Takes (Json.intText n ++ r) (.ofInt n) r := by
  obtain ⟨negative,m,htext,hvalue⟩ := exists_intText n
  have hwhole := isWhole_toDigits m
  have hword : inWord (if negative then -(digitsValue (Nat.toDigits 10 m) : Int)
      else digitsValue (Nat.toDigits 10 m)) = some (.ofInt n) := by
    rw [digitsValue_toDigits, hvalue, inWord, if_pos hn]
  have hdate := dateTime_misses_signed negative hwhole.digits (hr.stops (by decide))
    (hr.stops (by decide)) (hr.stops (by decide))
  rw [htext, List.append_assoc]
  exact takes_value_of_number hwhole (((hdate.map _).or (float_misses negative hwhole hr)).or_takes
    (takes_integer negative hwhole hr hword)) array table

theorem takes_exponentPart (e : Int) (hr : EndsDigits r) :
    exponentPart.Takes (exponentText (some e) ++ r) e r := by
  have hdigits : ∀ c ∈ Nat.toDigits 10 e.natAbs, c.isDigit := fun _ => Text.isDigit_toDigits
  have hne : Nat.toDigits 10 e.natAbs ≠ [] := Nat.toDigits_ne_nil
  have hsign : sign.Takes ((if e < 0 then '-' else '+') :: (Nat.toDigits 10 e.natAbs ++ r))
      (decide (e < 0)) (Nat.toDigits 10 e.natAbs ++ r) := by
    by_cases he : e < 0
    · rw [if_pos he, decide_eq_true he]
      exact (takes_char (by decide) _).maybe.bind (takes_pure _ _)
    · rw [if_neg he, decide_eq_false he]
      exact (takes_char (by decide) _).maybe.bind (takes_pure _ _)
  have hvalue : (if decide (e < 0) then -(numberOf 10 (Nat.toDigits 10 e.natAbs) : Int)
      else numberOf 10 (Nat.toDigits 10 e.natAbs)) = e := by
    rw [numberOf_eq hdigits, digitsValue_toDigits]
    split_ifs with he
    · have := of_decide_eq_true he
      omega
    · have : ¬ e < 0 := of_decide_eq_false (Bool.eq_false_iff.mpr he)
      omega
  have hresult : (pure (if decide (e < 0) then -(numberOf 10 (Nat.toDigits 10 e.natAbs) : Int)
      else numberOf 10 (Nat.toDigits 10 e.natAbs)) : Scan Int).Takes r e r := by
    rw [hvalue]
    exact takes_pure e r
  exact (takes_char (by decide) _).bind
    (hsign.bind ((takes_digitRun hne hdigits hr).must.bind hresult))

theorem endsDigits_exponentText (e : Option Int) (hr : EndsDigits r) :
    EndsDigits (exponentText e ++ r) := by
  cases e with
  | none => exact hr
  | some e => exact endsDigits_cons (by decide) _

theorem takes_floatParts (negative : Bool) {l : Layout} (hl : l.IsFloat) (hr : Follows r) :
    floatParts.Takes (signText negative ++ (l.text ++ r)) (negative,l.digits,l.place) r := by
  obtain ⟨whole,part,exponent⟩ := l
  have hends := endsDigits_exponentText exponent hr.endsDigits
  simp only [Layout.text, Layout.digits, Layout.place, List.append_assoc]
  by_cases hpart : part = []
  · obtain ⟨e,rfl⟩ := Option.isSome_iff_exists.mp (hl.marked.resolve_left (not_not_intro hpart))
    subst hpart
    refine (takes_wholeNumber negative hl.whole hends).bind (Takes.or ?_)
    have hresult := takes_pure (negative,whole,e) r
    simpa using (takes_exponentPart e hr.endsDigits).bind hresult
  · have hfraction : fractionText part = '.' :: part := if_neg (by simpa using hpart)
    have hpoint : EndsDigits ('.' :: (part ++ (exponentText exponent ++ r))) :=
      endsDigits_cons (by decide) _
    rw [hfraction]
    refine (takes_wholeNumber negative hl.whole hpoint).bind (Misses.or_takes ?_ ?_)
    · exact (Stops.misses_char (stops_cons.mpr (by decide))).bind.bind
    · have hdigits := (takes_digitRun hpart hl.part hends).must
      refine Takes.bind ((takes_one _ _).bind hdigits) (Takes.bind ?_ (takes_pure _ r))
      cases exponent with
      | none => exact Misses.maybe (hr.stops (by decide)).misses_char.bind
      | some e => exact (takes_exponentPart e hr.endsDigits).maybe

theorem takes_float (negative : Bool) {l : Layout} (hl : l.IsFloat) (hr : Follows r) {d : Double}
    (hd : Double.ofDecimal negative (digitsValue l.digits) l.place = some d) :
    float.Takes (signText negative ++ (l.text ++ r)) (.number (.float d)) r := by
  have hdigits : ∀ c ∈ l.digits, c.isDigit := fun c hc =>
    (List.mem_append.mp hc).elim (hl.whole.digits c) (hl.part c)
  refine ((takes_floatParts negative hl hr).require ?_).or
  rw [floatValue, numberOf_eq hdigits, hd]

theorem exists_layout {d : Double} (hd : d.IsNormal) : ∃ l : Layout, l.IsFloat ∧
    NumberLayout.json.render d = signText d.negative ++ l.text ∧
    Double.ofDecimal d.negative (digitsValue l.digits) l.place = some d := by
  by_cases hm : d.mantissa = 0
  · refine ⟨_,⟨⟨by simp,.inl rfl⟩,by simp,.inl (by simp)⟩,NumberLayout.render_zero hm,?_⟩
    exact Double.ofDecimal_zero hd hm _
  · obtain ⟨l,hl,htext,hrounds⟩ := NumberLayout.exists_render hd hm
    exact ⟨l,hl,htext,Double.ofDecimal_eq hd hm hrounds⟩

theorem takes_double {d : Double} (hd : d.IsNormal) (hr : Follows r) (array table : Scan Json) :
    (valueWith array table).Takes (NumberLayout.json.render d ++ r) (.number (.float d)) r := by
  obtain ⟨l,hl,htext,hvalue⟩ := exists_layout hd
  -- what stands behind the whole digits is a point or a power of ten
  obtain ⟨x,rest,hrest,hx⟩ : ∃ x rest,
      fractionText l.part ++ (exponentText l.exponent ++ r) = x :: rest ∧ (x = '.' ∨ x = 'e') := by
    by_cases hpart : l.part = []
    · obtain ⟨e,he⟩ := Option.isSome_iff_exists.mp (hl.marked.resolve_left (not_not_intro hpart))
      rw [hpart, he]
      exact ⟨'e',_,rfl,.inr rfl⟩
    · rw [show fractionText l.part = '.' :: l.part from if_neg (by simpa using hpart)]
      exact ⟨'.',_,rfl,.inl rfl⟩
  rw [htext, List.append_assoc]
  have hfloat := takes_float d.negative hl hr hvalue
  simp only [Layout.text, List.append_assoc] at hfloat ⊢
  rw [hrest] at hfloat ⊢
  have hdate : dateTime.Misses (signText d.negative ++ (l.whole ++ x :: rest)) := by
    refine dateTime_misses_signed d.negative hl.whole.digits ?_ ?_ ?_ <;>
      rcases hx with rfl | rfl <;> exact stops_cons.mpr (by decide)
  exact takes_value_of_number hl.whole ((hdate.map _).or_takes hfloat).or array table

end Workbench.Toml

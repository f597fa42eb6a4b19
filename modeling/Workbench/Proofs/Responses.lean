import Workbench.Proofs.FieldOrder
import Workbench.Rpc.Message
set_option autoImplicit false

namespace Workbench.Rpc
open Json.Decode

theorem ErrorKind.reads (k : ErrorKind) : Reads decoder (.string k.name) k := by
  cases k <;> exact reads_variant rfl

namespace Error

def Plain (e : Error) : Prop := ∀ d ∈ e.details, d.WellFormed ∧ d ≠ .null

theorem nodup_names (e : Error) : (e.fields.map Prod.fst).Nodup := by
  obtain ⟨k,m,details⟩ := e
  cases details <;> simp [fields]

theorem reads {e : Error} (he : e.Plain) {es : List (String × Json)} (hes : es.Perm e.fields) :
    Reads decoder (.object es) e := by
  obtain ⟨k,m,details⟩ := e
  cases details with
  | none =>
    refine reads_record
      [ .of "kind" .required (fun e k => { e with kind := k }) rfl k.reads,
        .of "message" .required (fun e m => { e with message := m }) rfl (reads_string m) ]
      ?_ ?_ ?_ hes rfl
    · simp
    · simp
    · simp [FilledField.Apart]
  | some d =>
    obtain ⟨hd,hnull⟩ := he d rfl
    refine reads_record
      [ .of "kind" .required (fun e k => { e with kind := k }) rfl k.reads,
        .of "message" .required (fun e m => { e with message := m }) rfl (reads_string m),
        .of "details" .optional (fun e d => { e with details := d }) rfl
          (reads_option (reads_any hd) hnull) ]
      ?_ ?_ ?_ hes rfl
    · simp
    · simp
    · simp [FilledField.Apart]

end Error

namespace Response

def written (r : Response) : Json := .object (r.fields fun e => .object e.fields)

theorem line_eq (r : Response) : r.line = r.written.render ++ "\n" := rfl

def Encodes (r : Response) (v : Json) : Prop :=
  ∃ (es : Error → List (String × Json)) (fs : List (String × Json)),
    (∀ e, (es e).Perm e.fields) ∧ fs.Perm (r.fields fun e => .object (es e)) ∧ v = .object fs

theorem nodup_names (r : Response) (error : Error → Json) :
    ((r.fields error).map Prod.fst).Nodup := by
  obtain ⟨version,id,ok,payload,e⟩ := r
  cases payload <;> cases e <;> simp [fields]

theorem encodes_toJson (r : Response) : r.Encodes r.toJson :=
  ⟨fun e => Entries.ofList e.fields,_,fun e => Entries.perm_ofList e.nodup_names,
    Entries.perm_ofList (r.nodup_names Error.toJson),rfl⟩

theorem encodes_written (r : Response) : r.Encodes r.written :=
  ⟨Error.fields,_,fun _ => .refl _,.refl _,rfl⟩

theorem field?_of_encodes {r : Response} {v : Json} (h : r.Encodes v) (k : String) :
    ∃ error, v.field? k = Entries.find? k (r.fields error) := by
  obtain ⟨es,fs,_,hfs,rfl⟩ := h
  refine ⟨fun e => .object (es e),Option.ext fun w => ?_⟩
  have hnodup := r.nodup_names fun e => .object (es e)
  have hnodup' : (Entries.keys fs).Nodup := (hfs.map Prod.fst).nodup_iff.mpr hnodup
  rw [Json.field?, Entries.find?_eq_some_iff hnodup', Entries.find?_eq_some_iff hnodup, hfs.mem_iff]

/-- An outcome whose values are well-formed, and whose error has no details that are null. -/
def Sendable : Except Error Json → Prop
  | .ok payload => payload.WellFormed
  | .error e => e.Plain

/-- What becomes of an outcome that is sent: a payload that is null is lost on the way. -/
def received (version : Int) (id : String) : Except Error Json → Response
  | .ok payload => ⟨version, id, true, if payload = .null then none else some payload, none⟩
  | .error e => ⟨version, id, false, none, some e⟩

theorem result_received (version : Int) (id : String) (r : Except Error Json) :
    (received version id r).result = r := by
  cases r with
  | error e => rfl
  | ok payload =>
    by_cases hnull : payload = .null
    · simp [received, result, hnull]
    · simp [received, result, hnull]

theorem reads_encoded {version : Int} (hversion : -2147483648 ≤ version ∧ version ≤ 2147483647)
    (id : String) {r : Except Error Json} (hr : Sendable r) {v : Json}
    (hv : (ofResult version id r).Encodes v) : Reads decoder v (received version id r) := by
  obtain ⟨es,fs,hes,hfs,rfl⟩ := hv
  cases r with
  | ok payload =>
    refine reads_record
      [ .of "protocol_version" .required (fun r v => { r with version := v }) rfl
          (reads_intBetween hversion "i32"),
        .of "request_id" .required (fun r s => { r with id := s }) rfl (reads_string id),
        .of "ok" .required (fun r b => { r with ok := b }) rfl (reads_bool true),
        .of "payload" .defaulted (fun r p => { r with payload := p }) rfl (reads_nullable hr) ]
      ?_ ?_ ?_ hfs rfl
    · simp
    · simp
    · simp [FilledField.Apart]
  | error e =>
    have herror : Reads (option Error.decoder) (.object (es e)) (some e) :=
      reads_option (Error.reads hr (hes e)) (by simp)
    refine reads_record
      [ .of "protocol_version" .required (fun r v => { r with version := v }) rfl
          (reads_intBetween hversion "i32"),
        .of "request_id" .required (fun r s => { r with id := s }) rfl (reads_string id),
        .of "ok" .required (fun r b => { r with ok := b }) rfl (reads_bool false),
        .of "error" .defaulted (fun r e => { r with error := e }) rfl herror ]
      ?_ ?_ ?_ hfs rfl
    · simp
    · simp
    · simp [FilledField.Apart]

/-- A text is read as one value, with the fields of objects in the order in which they stand. -/
def ReadAs (text : String) (v : Json) : Prop :=
  (Json.locate text.toList).1.asWritten = some v ∧ (Json.locate text.toList).2 = none

structure Tells (got : Response) (version : Int) (id : String) (r : Except Error Json) : Prop where
  version_eq : got.version = version
  id_eq : got.id = id
  ok_eq : got.ok = r.isOk
  result_eq : got.result = r

/-- From a value the outcome comes back, whether it is decoded itself or from a text. -/
structure Carries (v : Json) (version : Int) (id : String) (r : Except Error Json) : Prop where
  ok_eq : v.field? "ok" = some (.bool r.isOk)
  payload_iff : (v.field? "payload").isSome ↔ r.isOk
  error_iff : (v.field? "error").isSome ↔ ¬ r.isOk
  decoded : ∃ got, Json.decode decoder v = .ok got ∧ got.Tells version id r
  read : ∀ text, ReadAs text v →
    ∃ got, Json.decodeText decoder text = .ok got ∧ got.Tells version id r

/-- An outcome that is sent as a response is the outcome that is received, in whichever of the two
orders the fields are written: null payloads, errors with details and without come back as they
were. -/
theorem outcome_carried {version : Int} (hversion : -2147483648 ≤ version ∧ version ≤ 2147483647)
    (id : String) {r : Except Error Json} (hr : Sendable r) :
    Carries (ofResult version id r).toJson version id r ∧
      Carries (ofResult version id r).written version id r := by
  have htells : (received version id r).Tells version id r :=
    ⟨by cases r <;> rfl,by cases r <;> rfl,by cases r <;> rfl,result_received version id r⟩
  have hcarries : ∀ v, (ofResult version id r).Encodes v → Carries v version id r := by
    intro v hv
    have hreads := reads_encoded hversion id hr hv
    refine ⟨?_,?_,?_,⟨_,?_,htells⟩,fun text htext => ⟨_,?_,htells⟩⟩
    · obtain ⟨error,h⟩ := field?_of_encodes hv "ok"
      rw [h]
      cases r <;> rfl
    · obtain ⟨error,h⟩ := field?_of_encodes hv "payload"
      rw [h]
      cases r <;> simp [ofResult, fields, Entries.find?, Except.isOk, Except.toBool]
    · obtain ⟨error,h⟩ := field?_of_encodes hv "error"
      rw [h]
      cases r <;> simp [ofResult, fields, Entries.find?, Except.isOk, Except.toBool]
    · rw [Json.decode, hreads false _ (Json.asWritten_toLocated v)]
    · simp only [Json.decodeText, hreads true _ htext.1, htext.2]
  exact ⟨hcarries _ (encodes_toJson _),hcarries _ (encodes_written _)⟩

theorem outcome_carried_line :
    let r : Except Error Json :=
      .error ⟨.notFound, "gone", some (.object [("request_id", .string "a")])⟩
    (-2147483648 ≤ (1 : Int) ∧ (1 : Int) ≤ 2147483647) ∧ Sendable r ∧
      ReadAs (ofResult 1 "b" r).line (ofResult 1 "b" r).written ∧
      ∃ got, Json.decodeText decoder (ofResult 1 "b" r).line = .ok got ∧ got.Tells 1 "b" r := by
  intro r
  have hversion : -2147483648 ≤ (1 : Int) ∧ (1 : Int) ≤ 2147483647 := by decide
  have hr : Sendable r := by
    intro d hd
    cases hd
    exact ⟨Json.wellFormed_object.mpr ⟨List.pairwise_singleton _ _,by simp [Json.WellFormed]⟩,
      by simp⟩
  have hchars : (ofResult 1 "b" r).line.toList =
      (ofResult 1 "b" r).written.renderChars ++ ['\n'] := by
    rw [line_eq, String.toList_append, Json.render, String.toList_ofList]
    rfl
  have hline : ReadAs (ofResult 1 "b" r).line (ofResult 1 "b" r).written := by
    rw [ReadAs, hchars]
    decide +kernel
  exact ⟨hversion,hr,hline,(outcome_carried hversion "b" hr).2.read _ hline⟩

end Response
end Workbench.Rpc

import RunLedger.Proofs.Json.Reading
import RunLedger.Proofs.SortedMap.Bulk
import RunLedger.Stored.Run

/-!
# Stored records are read back as written

A type is stored well if its JSON is a written tree and is read back as the same value
(`ReadsBack`). This holds of texts and numbers, passes from values to lists, maps and options of
them, and from fields to records (`fields?_ofFields`). So a run record and an entry of the status
index decode from their payloads to themselves (`decode_ofRecord`).
-/

set_option autoImplicit false

namespace RunLedger

namespace Json

/-- What is written of a value is a written tree, and the value is read back from it. -/
structure ReadsBack {α : Type} (toJson : α → Json) (ofJson? : Json → Option α) : Prop where
  written : ∀ value, (toJson value).Written
  read : ∀ value, ofJson? (toJson value) = some value

/-! ### Texts and numbers -/

theorem meaning?_escape (text : String) : meaning? (some (escape text.toList)) = some text := by
  simp [meaning?, unescape?_escape]

theorem readsBack_string : ReadsBack ofString toString? where
  written text := .text text.toList
  read text := meaning?_escape text

theorem toName?_ofString (name : String) : toName? (ofString name) = some name :=
  meaning?_escape name

theorem ofDecimal_toDigits (value : Nat) : ofDecimal (Nat.toDigits 10 value) = value := by
  have hdigits : ofDecimal (Nat.toDigits 10 value) =
      Nat.ofDigitChars 10 (Nat.toDigits 10 value) 0 := by
    rw [ofDecimal, Nat.ofDigitChars]
    congr 1
    funext number digit
    rw [Nat.mul_comm]
    rfl
  rw [hdigits, Nat.ofDigitChars_ten_toDigits]

theorem readsBack_uint64 : ReadsBack ofUInt64 toUInt64? where
  written value := .number value.toNat
  read value := by
    have hall : (Nat.toDigits 10 value.toNat).all Char.isDigit = true :=
      List.all_eq_true.mpr fun character hcharacter ↦
        Nat.isDigit_of_mem_toDigits (by decide) (by decide) hcharacter
    have hlt : value.toNat < UInt64.size := value.toNat_lt
    simp only [ofUInt64, toUInt64?, ofDecimal_toDigits]
    rw [if_pos ⟨hall, hlt⟩, UInt64.ofNat_toNat]

/-! ### Lists, maps and options -/

section

variable {α : Type} {toJson : α → Json} {ofJson? : Json → Option α}

theorem ReadsBack.mapM (hvalues : ReadsBack toJson ofJson?) (items : List α) :
    (items.map toJson).mapM ofJson? = some items := by
  rw [List.mapM_map]
  induction items with
  | nil => rfl
  | cons item rest ih => simp [List.mapM_cons, hvalues.read, ih]

theorem ReadsBack.ofList (hvalues : ReadsBack toJson ofJson?) :
    ReadsBack (Json.ofList toJson) (toList? ofJson?) where
  written items := .array fun json hjson ↦ by
    obtain ⟨item, -, rfl⟩ := List.mem_map.mp hjson
    exact hvalues.written item
  read items := hvalues.mapM items

theorem ReadsBack.ofMap (hvalues : ReadsBack toJson ofJson?) :
    ReadsBack (Json.ofMap toJson) (toMap? ofJson?) where
  written map := by
    refine .object (fun member hmember ↦ ?_) fun member hmember ↦ ?_
    · obtain ⟨entry, -, rfl⟩ := List.mem_map.mp hmember
      exact ⟨entry.1.toList, rfl⟩
    · obtain ⟨entry, -, rfl⟩ := List.mem_map.mp hmember
      exact hvalues.written entry.2
  read map := by
    have hmembers (entries : List (String × α)) :
        (entries.map fun entry ↦ (some (escape entry.1.toList), toJson entry.2)).mapM
          (fun (spelling?, json) ↦ do return (← meaning? spelling?, ← ofJson? json)) =
            some entries := by
      rw [List.mapM_map]
      induction entries with
      | nil => rfl
      | cons entry rest ih =>
        rw [List.mapM_cons, ih]
        simp [meaning?_escape, hvalues.read]
    simp only [Json.ofMap, toMap?]
    rw [hmembers]
    exact congrArg some (SortedMap.ofList_toList map)

theorem ReadsBack.ofOption (hvalues : ReadsBack toJson ofJson?)
    (hnull : ∀ value, toJson value ≠ .null) :
    ReadsBack (Json.ofOption toJson) (toOption? ofJson?) where
  written
    | none => .null
    | some value => hvalues.written value
  read
    | none => rfl
    | some value => by
      simp only [Json.ofOption, toOption?]
      split
      · rename_i hjson
        exact absurd hjson (hnull value)
      · rw [hvalues.read]
        rfl

end

/-! ### Records -/

theorem written_ofFields {fields : List (String × Json)}
    (hfields : ∀ field ∈ fields, field.2.Written) : (ofFields fields).Written := by
  refine .object (fun member hmember ↦ ?_) fun member hmember ↦ ?_
  · obtain ⟨field, -, rfl⟩ := List.mem_map.mp hmember
    exact ⟨field.1.toList, rfl⟩
  · obtain ⟨field, hfield, rfl⟩ := List.mem_map.mp hmember
    exact hfields field hfield

/-- Of fields with different names each is found once. -/
theorem valuesNamed_eq {fields : List (String × Json)} (hfields : (fields.map Prod.fst).Nodup)
    (name : String) : valuesNamed name fields = (List.lookup name fields).toList := by
  induction fields with
  | nil => rfl
  | cons field rest ih =>
    obtain ⟨hfield, hrest⟩ := List.nodup_cons.mp hfields
    obtain ⟨key, json⟩ := field
    unfold valuesNamed at *
    by_cases hname : key = name
    · subst hname
      have hnone : rest.filter (fun member ↦ member.1 = key) = [] := by
        refine List.filter_eq_nil_iff.mpr fun member hmember hkey ↦ ?_
        exact hfield (List.mem_map.mpr ⟨member, hmember, of_decide_eq_true hkey⟩)
      simp [hnone]
    · have hother : (name == key) = false := beq_false_of_ne (Ne.symm hname)
      rw [List.filter_cons_of_neg (by simpa using hname), ih hrest, List.lookup_cons, hother]

/-- The fields of a record are read back by their names. -/
theorem fields?_ofFields (names : List String) {fields : List (String × Json)}
    (hfields : (fields.map Prod.fst).Nodup) :
    fields? names (ofFields fields) = some (names.map fun name ↦ List.lookup name fields) := by
  have hmembers : (fields.map fun field ↦ (some (escape field.1.toList), field.2)).mapM
      (fun member ↦ (meaning? member.1).map (·, member.2)) = some fields := by
    rw [List.mapM_map]
    clear hfields
    induction fields with
    | nil => rfl
    | cons field rest ih =>
      rw [List.mapM_cons, ih]
      simp [meaning?_escape]
  simp only [fields?, ofFields]
  rw [hmembers]
  simp only [Option.bind_eq_bind, Option.bind_some]
  induction names with
  | nil => rfl
  | cons name rest ih =>
    rw [List.mapM_cons, ih, valuesNamed_eq hfields, List.map_cons]
    cases List.lookup name fields <;> rfl

/-- A record is read back if its fields have different names and the values found by name make the
record again. -/
theorem readsBack_record {α : Type} {names : List String} {fieldsOf : α → List (String × Json)}
    {reader : List (Option Json) → Option α}
    (hnames : ∀ value, ((fieldsOf value).map Prod.fst).Nodup)
    (hwritten : ∀ value, ∀ field ∈ fieldsOf value, field.2.Written)
    (hread : ∀ value, reader (names.map fun name ↦ List.lookup name (fieldsOf value)) = some value) :
    ReadsBack (fun value ↦ ofFields (fieldsOf value)) (fun json ↦ fields? names json >>= reader) where
  written value := written_ofFields (hwritten value)
  read value := by
    simp only [fields?_ofFields names (hnames value), Option.bind_eq_bind, Option.bind_some]
    exact hread value

end Json

open Json

/-! ### Stored types -/

theorem readsBack_programType : ReadsBack (Stored.toJson : ProgramType → Json) Stored.ofJson? where
  written type := .text _
  read type := by
    simp only [Stored.toJson, Stored.ofJson?, toName?_ofString]
    cases type <;> decide

theorem readsBack_programId :
    ReadsBack (Stored.toJson : ProgramId → Json) Stored.ofJson? := by
  refine readsBack_record (fun program ↦ ?_) (fun program ↦ ?_) fun program ↦ ?_
  · simp
  · simp [readsBack_string.written, readsBack_programType.written]
  · simp [List.lookup_cons, List.lookup_nil, required?, readsBack_string.read, readsBack_programType.read]

theorem readsBack_runId : ReadsBack (Stored.toJson : RunId → Json) Stored.ofJson? where
  written id := readsBack_string.written id.text
  read id := by
    simp only [Stored.toJson, Stored.ofJson?, readsBack_string.read]
    exact id.parse?_text

theorem readsBack_runStatus : ReadsBack (Stored.toJson : RunStatus → Json) Stored.ofJson? where
  written status := .text _
  read status := by
    simp only [Stored.toJson, Stored.ofJson?, toName?_ofString]
    cases status <;> decide

theorem readsBack_failureCause :
    ReadsBack (Stored.toJson : FailureCause → Json) Stored.ofJson? := by
  refine readsBack_record (fun cause ↦ ?_) (fun cause ↦ ?_) fun cause ↦ ?_
  · cases cause.stackTrace.isEmpty <;> simp
  · cases cause.stackTrace.isEmpty <;> simp [readsBack_string.written, readsBack_string.ofList.written]
  · obtain ⟨className, message, stackTrace⟩ := cause
    cases stackTrace <;>
      simp [List.lookup_cons, List.lookup_nil, required?, withDefault?, readsBack_string.read, readsBack_string.ofList.read]

theorem readsBack_nodeRun : ReadsBack (Stored.toJson : NodeRun → Json) Stored.ofJson? := by
  refine readsBack_record (fun run ↦ ?_) (fun run ↦ ?_) fun run ↦ ?_
  · simp
  · simp [readsBack_string.written, readsBack_programType.written, readsBack_runId.written]
  · simp [List.lookup_cons, List.lookup_nil, required?, readsBack_string.read, readsBack_programType.read,
      readsBack_runId.read]

theorem readsBack_indexEntry : ReadsBack (Stored.toJson : IndexEntry → Json) Stored.ofJson? := by
  refine readsBack_record (fun entry ↦ ?_) (fun entry ↦ ?_) fun entry ↦ ?_
  · simp
  · simp [readsBack_programId.written, readsBack_runId.written]
  · simp [List.lookup_cons, List.lookup_nil, required?, readsBack_programId.read, readsBack_runId.read]

theorem readsBack_runRecord : ReadsBack (Stored.toJson : RunRecord → Json) Stored.ofJson? := by
  have htime := readsBack_uint64.ofOption fun value hnull ↦ by cases hnull
  have htext := readsBack_string.ofOption fun value hnull ↦ by cases hnull
  have hcause := readsBack_failureCause.ofOption fun value hnull ↦ by cases hnull
  have harguments := readsBack_string.ofMap
  have hnodes := readsBack_nodeRun.ofMap
  refine readsBack_record (fun record ↦ ?_) (fun record ↦ ?_) fun record ↦ ?_
  · cases record.workflowNodes.isEmpty <;> simp
  · cases record.workflowNodes.isEmpty <;>
      simp [readsBack_programId.written, readsBack_runId.written, readsBack_runStatus.written,
        readsBack_uint64.written, htime.written, htext.written, hcause.written,
        harguments.written, hnodes.written]
  · cases hempty : record.workflowNodes.isEmpty with
    | true =>
      have hnone := (SortedMap.isEmpty_iff_eq_empty _).mp hempty
      simp [RunRecord.fieldNames, List.lookup_cons, List.lookup_nil, required?, withDefault?, readsBack_programId.read,
        readsBack_runId.read, readsBack_runStatus.read, readsBack_uint64.read, htime.read,
        htext.read, hcause.read, harguments.read, ← hnone]
    | false =>
      simp [RunRecord.fieldNames, List.lookup_cons, List.lookup_nil, required?, withDefault?, readsBack_programId.read,
        readsBack_runId.read, readsBack_runStatus.read, readsBack_uint64.read, htime.read,
        htext.read, hcause.read, harguments.read, hnodes.read]

/-! ### Payloads -/

/-- A record that is read back from its JSON decodes from its payload. -/
theorem decode_of_readsBack {α : Type} [Stored α]
    (hstored : ReadsBack (Stored.toJson : α → Json) Stored.ofJson?) (record : α) :
    (Value.ofRecord record).decode = .ok record := by
  simp only [Value.ofRecord, Value.decode, Value.decodeBytes,
    (hstored.written record).parse?_render, Option.bind_eq_bind, Option.bind_some,
    hstored.read record]

/-- A run record decodes from its payload. -/
theorem decode_runRecord (record : RunRecord) : (Value.ofRecord record).decode = .ok record :=
  decode_of_readsBack readsBack_runRecord record

/-- An entry of the status index decodes from its payload. -/
theorem decode_indexEntry (entry : IndexEntry) : (Value.ofRecord entry).decode = .ok entry :=
  decode_of_readsBack readsBack_indexEntry entry

/-- Records that decode from their payloads are one if their payloads are. -/
theorem ofRecord_inj_of_decode {α : Type} [Stored α]
    (hdecode : ∀ record : α, (Value.ofRecord record).decode = .ok record) {first second : α} :
    Value.ofRecord first = Value.ofRecord second ↔ first = second := by
  refine ⟨fun hequal ↦ ?_, congrArg _⟩
  have hfirst := hdecode first
  rw [hequal, hdecode] at hfirst
  exact (Except.ok.inj hfirst).symm

/-- Run records with one payload are one. -/
theorem ofRecord_runRecord_inj {first second : RunRecord} :
    Value.ofRecord first = Value.ofRecord second ↔ first = second :=
  ofRecord_inj_of_decode decode_runRecord

end RunLedger

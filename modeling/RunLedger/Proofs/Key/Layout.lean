import RunLedger.Key.Layout
import RunLedger.Proofs.Key.Order

/-!
# What keys tell

A component of a key ends where its bytes say, whatever follows (`text_append_inj`), so the keys of
a family tell which run they are for: two of them are equal only if they have the same components
(`run_inj`, `statusIndex_inj`, `nodeState_inj`, `workflowToken_inj`), a key that begins as the node
states of a run do is of that run (`nodeState_startsWith_iff`), and one that begins as the runs of a
scope do is of a program in the scope (`run_startsWith_iff`). The key of a run is read back
(`decodeRun_run`).
-/

set_option autoImplicit false

namespace RunLedger

namespace KeyReader

/-- What a reader does first decides on which bytes the rest of it goes on. -/
theorem run_bind {α β : Type} {first : KeyReader α} {next : α → KeyReader β} {value : α}
    {bytes rest : List UInt8} (hfirst : first.run.run bytes = (.ok value, rest)) :
    (first >>= next).run.run bytes = (next value).run.run rest := by
  have hbind : (first >>= next).run.run bytes =
      (fun answered : Except Damage α × List UInt8 ↦
        (ExceptT.bindCont next answered.1).run answered.2) (first.run.run bytes) := rfl
  rw [hbind, hfirst]
  rfl

/-- An escaped text is read up to its end. -/
theorem unescape_escape (bytes rest : List UInt8) :
    unescape (KeyComponent.escape bytes ++ 0 :: 1 :: rest) = (.ok bytes, rest) := by
  induction bytes with
  | nil => rfl
  | cons head tail ih =>
    unfold KeyComponent.escape
    split
    · rename_i hzero
      subst hzero
      rw [List.cons_append, List.cons_append, unescape]
      simp [ih]
    · rename_i hhead
      rw [List.cons_append]
      cases hbehind : KeyComponent.escape tail ++ 0 :: 1 :: rest with
      | nil => simp at hbehind
      | cons second others => rw [unescape, if_pos hhead, ← hbehind, ih]

theorem encode_text_append (value : String) (rest : List UInt8) :
    KeyComponent.encode (.text value) ++ rest =
      KeyComponent.escape (Text.utf8 value) ++ 0 :: 1 :: rest := by
  rw [KeyComponent.encode, List.append_assoc]
  rfl

theorem run_text (value : String) (rest : List UInt8) :
    KeyReader.text.run.run (KeyComponent.encode (.text value) ++ rest) = (.ok value, rest) := by
  have hget (bytes : List UInt8) : (get : KeyReader (List UInt8)).run.run bytes = (.ok bytes, bytes) :=
    rfl
  have hset (bytes : List UInt8) : (set rest : KeyReader Unit).run.run bytes = (.ok (), rest) := rfl
  rw [encode_text_append, KeyReader.text, run_bind (hget _), unescape_escape]
  dsimp only
  rw [run_bind (hset _), Text.ofUtf8?_utf8]
  rfl

theorem run_byte (value : UInt8) (rest : List UInt8) :
    KeyReader.byte.run.run (KeyComponent.encode (.byte value) ++ rest) = (.ok value, rest) := rfl

theorem run_number (value : UInt64) (rest : List UInt8) :
    ∃ number, KeyReader.number.run.run (KeyComponent.encode (.number value) ++ rest) =
      (.ok number, rest) :=
  ⟨_, rfl⟩

theorem run_program (program : ProgramId) (rest : List UInt8) :
    KeyReader.program.run.run (KeyComponent.encodeAll program.keyComponents ++ rest) =
      (.ok program, rest) := by
  simp only [ProgramId.keyComponents, KeyComponent.encodeAll, List.flatMap_cons, List.flatMap_nil,
    List.append_assoc, List.append_nil]
  rw [KeyReader.program, run_bind (run_text _ _), run_bind (run_text _ _), run_bind (run_byte _ _),
    ProgramType.ofCode?_code]
  exact run_bind (run_text _ _)

end KeyReader

namespace Key

/-- The key of a run tells which run it is. -/
theorem decodeRun_run (program : ProgramId) (id : RunId) :
    (run program id).decodeRun = .ok (program, id) := by
  obtain ⟨number, hnumber⟩ :=
    KeyReader.run_number id.seconds (KeyComponent.encode (.text id.text) ++ [])
  have hread := KeyReader.run_program program (KeyComponent.encode (.number id.seconds) ++
    (KeyComponent.encode (.text id.text) ++ []))
  have hbytes : (run program id).bytes = KeyComponent.encodeAll program.keyComponents ++
      (KeyComponent.encode (.number id.seconds) ++ (KeyComponent.encode (.text id.text) ++ [])) := by
    simp [run, ofComponents, KeyComponent.encodeAll, List.flatMap_append]
  have hid : RunId.parse? id.text = some id := id.parse?_text
  unfold decodeRun
  rw [if_neg fun hfamily ↦ hfamily rfl, hbytes]
  have hanswer {reader : KeyReader (ProgramId × RunId)} {bytes rest : List UInt8}
      {value : ProgramId × RunId} (hreader : reader.run.run bytes = (.ok value, rest)) :
      (reader.run bytes).1 = .ok value := congrArg Prod.fst hreader
  refine @hanswer _ _ [] _ ?_
  rw [KeyReader.run_bind hread, KeyReader.run_bind hnumber,
    KeyReader.run_bind (KeyReader.run_text _ _), hid]
  rfl

/-! ### Components -/

/-- A text ends where its bytes say. -/
theorem text_append_inj {first second : String} {behind others : List UInt8}
    (hequal : KeyComponent.encode (.text first) ++ behind =
      KeyComponent.encode (.text second) ++ others) : first = second ∧ behind = others := by
  have hread := KeyReader.run_text first behind
  rw [hequal, KeyReader.run_text] at hread
  obtain ⟨hvalue, hrest⟩ := Prod.mk.inj hread
  exact ⟨(Except.ok.inj hvalue).symm, hrest.symm⟩

/-- A number takes eight bytes. -/
theorem behind_number {first second : UInt64} {behind others : List UInt8}
    (hequal : KeyComponent.encode (.number first) ++ behind =
      KeyComponent.encode (.number second) ++ others) : behind = others :=
  (List.append_inj hequal rfl).2

/-- The components of a program end where their bytes say. -/
theorem program_append_inj {first second : ProgramId} {behind others : List UInt8}
    (hequal : KeyComponent.encodeAll first.keyComponents ++ behind =
      KeyComponent.encodeAll second.keyComponents ++ others) : first = second ∧ behind = others := by
  have hread := KeyReader.run_program first behind
  rw [hequal, KeyReader.run_program] at hread
  obtain ⟨hvalue, hrest⟩ := Prod.mk.inj hread
  exact ⟨(Except.ok.inj hvalue).symm, hrest.symm⟩

theorem program_of_components {first second : ProgramId}
    (hequal : KeyComponent.encodeAll first.keyComponents =
      KeyComponent.encodeAll second.keyComponents) : first = second :=
  (@program_append_inj first second [] [] (by rw [hequal])).1

theorem id_of_text {first second : RunId} (htext : first.text = second.text) : first = second := by
  have hfirst := first.parse?_text
  rw [htext, second.parse?_text] at hfirst
  exact (Option.some.inj hfirst).symm

/-- Run ids that tie are the same. -/
theorem id_of_compare {first second : RunId} (hties : compare first second = .eq) :
    first = second := by
  have hcompare : (compare first.seconds second.seconds).then (compare first.text second.text) =
      .eq := hties
  exact id_of_text (Std.LawfulEqOrd.eq_of_compare (Ordering.then_eq_eq.mp hcompare).2)

theorem encodeAll_append (first second : List KeyComponent) :
    KeyComponent.encodeAll (first ++ second) =
      KeyComponent.encodeAll first ++ KeyComponent.encodeAll second :=
  List.flatMap_append

theorem encodeAll_cons (first : KeyComponent) (rest : List KeyComponent) :
    KeyComponent.encodeAll (first :: rest) = first.encode ++ KeyComponent.encodeAll rest :=
  List.flatMap_cons

/-! ### Keys of one family -/

theorem run_inj {first second : ProgramId} {id other : RunId}
    (hequal : run first id = run second other) : first = second ∧ id = other := by
  have hdecode := decodeRun_run first id
  rw [hequal, decodeRun_run] at hdecode
  obtain ⟨hprogram, hid⟩ := Prod.mk.inj (Except.ok.inj hdecode)
  exact ⟨hprogram.symm, hid.symm⟩

theorem statusIndex_inj {status state : RunStatus} {first second : ProgramId} {id other : RunId}
    (hequal : statusIndex status first id = statusIndex state second other) :
    status = state ∧ first = second ∧ id = other := by
  have hbytes : (statusIndex status first id).bytes = (statusIndex state second other).bytes :=
    congrArg Key.bytes hequal
  simp only [statusIndex, ofComponents, encodeAll_append, encodeAll_cons, List.append_assoc]
    at hbytes
  obtain ⟨hcode, hbehind⟩ := List.cons.inj hbytes
  obtain ⟨htext, hprogram⟩ := text_append_inj (behind_number hbehind)
  refine ⟨?_, program_of_components hprogram, id_of_text htext⟩
  have hstatus := status.ofCode?_code
  rw [hcode, state.ofCode?_code] at hstatus
  exact (Option.some.inj hstatus).symm

theorem nodeState_inj {first second : ProgramId} {id other : RunId} {node name : String}
    (hequal : nodeState first id node = nodeState second other name) :
    first = second ∧ id = other ∧ node = name := by
  have hbytes : (nodeState first id node).bytes = (nodeState second other name).bytes :=
    congrArg Key.bytes hequal
  simp only [nodeState, ofComponents, encodeAll_append, encodeAll_cons] at hbytes
  obtain ⟨hprogram, hbehind⟩ := program_append_inj hbytes
  obtain ⟨htext, hbehind⟩ := text_append_inj hbehind
  exact ⟨hprogram, id_of_text htext, (text_append_inj hbehind).1⟩

theorem workflowToken_inj {first second : ProgramId} {id other : RunId}
    (hequal : workflowToken first id = workflowToken second other) :
    first = second ∧ id = other := by
  have hbytes : (workflowToken first id).bytes = (workflowToken second other).bytes :=
    congrArg Key.bytes hequal
  simp only [workflowToken, ofComponents, encodeAll_append, encodeAll_cons] at hbytes
  obtain ⟨hprogram, hbehind⟩ := program_append_inj hbytes
  exact ⟨hprogram, id_of_text (text_append_inj hbehind).1⟩

/-! ### Keys that begin alike -/

/-- A key of components begins as another one if its bytes go on where those of the other end. -/
theorem startsWith_ofComponents {family : Family} {components stem : List KeyComponent} :
    (ofComponents family components).startsWith (ofComponents family stem) = true ↔
      ∃ behind, KeyComponent.encodeAll stem ++ behind = KeyComponent.encodeAll components := by
  rw [startsWith_iff]
  exact ⟨fun hboth ↦ hboth.2, fun hbehind ↦ ⟨rfl, hbehind⟩⟩

/-- The node states of a run are those whose keys begin as the run says. -/
theorem nodeState_startsWith_iff {first second : ProgramId} {id other : RunId} {node : String} :
    (nodeState first id node).startsWith (nodeStatesOfRun second other) = true ↔
      first = second ∧ id = other := by
  unfold nodeState nodeStatesOfRun
  rw [startsWith_ofComponents]
  constructor
  · rintro ⟨behind, hequal⟩
    simp only [encodeAll_append, encodeAll_cons, List.append_assoc] at hequal
    obtain ⟨hprogram, hbehind⟩ := program_append_inj hequal
    exact ⟨hprogram.symm, id_of_text (text_append_inj hbehind).1.symm⟩
  · rintro ⟨rfl, rfl⟩
    refine ⟨KeyComponent.encode (.text node), ?_⟩
    simp [KeyComponent.encodeAll, List.flatMap_append]

/-- The records of the runs in a scope are those whose keys begin as the scope says. -/
theorem run_startsWith_iff {program : ProgramId} {id : RunId} {scope : Scope} :
    (run program id).startsWith (runsInScope scope) = true ↔ scope.contains program = true := by
  unfold run runsInScope
  rw [startsWith_ofComponents]
  cases scope with
  | wholeNamespace namespaceName =>
    simp only [Scope.contains, decide_eq_true_eq, Scope.keyComponents, ProgramId.keyComponents,
      List.cons_append, encodeAll_cons, List.append_assoc]
    constructor
    · rintro ⟨behind, hequal⟩
      exact (text_append_inj hequal).1.symm
    · rintro rfl
      exact ⟨_, rfl⟩
  | oneApplication namespaceName application =>
    simp only [Scope.contains, Bool.and_eq_true, decide_eq_true_eq, Scope.keyComponents,
      ProgramId.keyComponents, List.cons_append, encodeAll_cons, List.append_assoc]
    constructor
    · rintro ⟨behind, hequal⟩
      obtain ⟨hnamespace, hbehind⟩ := text_append_inj hequal
      exact ⟨hnamespace.symm, (text_append_inj hbehind).1.symm⟩
    · rintro ⟨rfl, rfl⟩
      exact ⟨_, rfl⟩

end Key

end RunLedger

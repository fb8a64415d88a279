import RunLedger.Proofs.Key.Reading

/-!
# The order of keys is that of their components

Of two lists of components of the same kinds, the bytes are in the order of the components: bytes
and numbers by value, texts by their UTF-8 bytes, and the first component that differs decides,
whatever follows it (`compare_encodeAll_append`). It is what closes a text that makes this true: the
closing NUL and 1 are smaller than every continuation, an escaped NUL included, so a text is below
all texts that begin with it (`compare_escape_append`).

Records of runs and summaries have their second behind the components that name a program and the
text of the run id behind it (`timed`). So those of one program are in the order of their run ids, a
time bound is below those from its second on, and none of another program lies between two bounds.
-/

set_option autoImplicit false

namespace RunLedger

namespace KeyComponent

def kind : KeyComponent → KeyKind
  | byte _ => .byte
  | number _ => .number
  | text _ => .text

/-- How components of one kind are ordered; components of different kinds are not. -/
def order : KeyComponent → KeyComponent → Ordering
  | byte first, byte second => compare first second
  | number first, number second => compare first second
  | text first, text second => compare (Text.utf8 first) (Text.utf8 second)
  | _, _ => .eq

/-! ### Single components -/

theorem compare_toNat (first second : UInt64) :
    compare first.toNat second.toNat = compare first second := by
  cases hcompare : compare first second with
  | lt => exact Nat.compare_eq_lt.mpr (UInt64.lt_iff_toNat_lt.mp (Std.compare_eq_lt.mp hcompare))
  | eq => rw [Std.LawfulEqOrd.eq_of_compare hcompare, Nat.compare_eq_eq.mpr rfl]
  | gt => exact Nat.compare_eq_gt.mpr (UInt64.lt_iff_toNat_lt.mp (Std.compare_eq_gt.mp hcompare))

/-- Numbers are as wide as each other, so the larger one has the larger bytes. -/
theorem compare_numberBytes_append (first second : UInt64) (behind others : List UInt8) :
    compare (numberBytes first ++ behind) (numberBytes second ++ others) =
      (compare first second).then (compare behind others) := by
  have hlength : (numberBytes first).length = (numberBytes second).length := rfl
  rw [Text.compare_append_of_length_eq hlength, numberOf_numberBytes, numberOf_numberBytes,
    compare_toNat]

/-- The end of a text is below all that a text can go on with. -/
theorem compare_end_escape (head : UInt8) (tail behind others : List UInt8) :
    compare (0 :: 1 :: behind) (escape (head :: tail) ++ others) = .lt := by
  rw [escape]
  split
  · rw [List.cons_append, Text.compare_cons_self, List.cons_append]
    exact Text.compare_cons_of_lt (by decide) _ _
  · rename_i hhead
    have hpositive : 0 < head := by
      have hzero : head.toNat ≠ 0 := fun hzero ↦ hhead (UInt8.toNat_inj.mp hzero)
      exact UInt8.lt_iff_toNat_lt.mpr (Nat.pos_of_ne_zero hzero)
    exact Text.compare_cons_of_lt hpositive _ _

/-- Escaped texts with their ends are in the order of the texts, whatever follows. -/
theorem compare_escape_append (first second behind others : List UInt8) :
    compare (escape first ++ 0 :: 1 :: behind) (escape second ++ 0 :: 1 :: others) =
      (compare first second).then (compare behind others) := by
  induction first generalizing second with
  | nil =>
    cases second with
    | nil => exact Text.compare_append_self [0, 1] behind others
    | cons head tail => exact compare_end_escape head tail behind _
  | cons head tail ih =>
    cases second with
    | nil => exact Std.OrientedCmp.gt_of_lt (compare_end_escape head tail others _)
    | cons other rest =>
      have hescape (byte : UInt8) (bytes : List UInt8) :
          escape (byte :: bytes) = byte :: ((if byte = 0 then [255] else []) ++ escape bytes) := by
        rw [escape]
        split <;> simp [*]
      rw [hescape, hescape, List.cons_append, List.cons_append, List.compare_cons_cons,
        List.compare_cons_cons]
      cases hcompare : compare head other with
      | lt => rfl
      | gt => rfl
      | eq =>
        obtain rfl := Std.LawfulEqOrd.eq_of_compare hcompare
        rw [List.append_assoc, List.append_assoc, Text.compare_append_self]
        exact ih rest

/-- The bytes of a component decide as the component does, and what follows them if it is the
same. -/
theorem compare_encode_append {first second : KeyComponent} (hkind : first.kind = second.kind)
    (behind others : List UInt8) :
    compare (first.encode ++ behind) (second.encode ++ others) =
      (order first second).then (compare behind others) := by
  cases first <;> cases second <;> cases hkind
  case byte.byte first second => exact List.compare_cons_cons
  case number.number first second => exact compare_numberBytes_append first second behind others
  case text.text first second =>
    rw [KeyReader.encode_text_append, KeyReader.encode_text_append]
    exact compare_escape_append _ _ behind others

/-- Components of one kind are only as large as each other if they are the same. -/
theorem order_eq_iff {first second : KeyComponent} (hkind : first.kind = second.kind) :
    order first second = .eq ↔ first = second := by
  cases first <;> cases second <;> cases hkind
  case byte.byte first second => simp [order]
  case number.number first second => simp [order]
  case text.text first second =>
    simp only [order, Std.LawfulEqCmp.compare_eq_iff_eq, text.injEq]
    constructor
    · intro hbytes
      exact Option.some.inj ((Text.ofUtf8?_utf8 first).symm.trans
        (hbytes ▸ Text.ofUtf8?_utf8 second))
    · exact congrArg Text.utf8

/-! ### Components in a row -/

/-- The bytes of components of the same kinds are in the lexicographic order of the components, and
what follows decides only if they are the same. -/
theorem compare_encodeAll_append {first second : List KeyComponent}
    (hkinds : first.map kind = second.map kind) (behind others : List UInt8) :
    compare (encodeAll first ++ behind) (encodeAll second ++ others) =
      (List.compareLex order first second).then (compare behind others) := by
  induction first generalizing second with
  | nil =>
    obtain rfl : second = [] := List.map_eq_nil_iff.mp hkinds.symm
    rfl
  | cons component rest ih =>
    cases second with
    | nil => cases hkinds
    | cons other tail =>
      obtain ⟨hkind, hkinds⟩ := List.cons.inj hkinds
      rw [Key.encodeAll_cons, Key.encodeAll_cons, List.append_assoc, List.append_assoc,
        compare_encode_append hkind, ih hkinds, List.compareLex_cons_cons, Ordering.then_assoc]

theorem compareLex_order_eq_iff {first second : List KeyComponent}
    (hkinds : first.map kind = second.map kind) :
    List.compareLex order first second = .eq ↔ first = second := by
  induction first generalizing second with
  | nil =>
    obtain rfl : second = [] := List.map_eq_nil_iff.mp hkinds.symm
    exact iff_of_true rfl rfl
  | cons component rest ih =>
    cases second with
    | nil => cases hkinds
    | cons other tail =>
      obtain ⟨hkind, hkinds⟩ := List.cons.inj hkinds
      rw [List.compareLex_cons_cons, Ordering.then_eq_eq, order_eq_iff hkind, ih hkinds,
        List.cons.injEq]

/-- The first component that differs decides, whatever follows. -/
theorem compare_encodeAll_of_ne (shared : List KeyComponent) {first second : KeyComponent}
    (hkind : first.kind = second.kind) (hdiffer : first ≠ second) (behind others : List UInt8) :
    compare (encodeAll (shared ++ [first]) ++ behind) (encodeAll (shared ++ [second]) ++ others) =
      order first second := by
  have hsingle (component : KeyComponent) : encodeAll [component] = component.encode :=
    List.flatMap_singleton ..
  rw [Key.encodeAll_append, Key.encodeAll_append, List.append_assoc, List.append_assoc,
    Text.compare_append_self, hsingle, hsingle, compare_encode_append hkind]
  cases horder : order first second with
  | lt => rfl
  | eq => exact absurd ((order_eq_iff hkind).mp horder) hdiffer
  | gt => rfl

end KeyComponent

namespace Key

open KeyComponent

/-! ### Entries in the order of their run ids -/

/-- The key of an entry behind the second and the text of a run id. -/
def timed (family : Family) (stem : List KeyComponent) (id : RunId) : Key :=
  ofComponents family (stem ++ [.number id.seconds, .text id.text])

/-- The lower bound of such entries from a second on. -/
def timeBound (family : Family) (stem : List KeyComponent) (seconds : UInt64) : Key :=
  ofComponents family (stem ++ [.number seconds])

theorem compare_mk (family : Family) (first second : List UInt8) :
    compare (Key.mk family first) (Key.mk family second) = compare first second := by
  have hrank : compare family.rank family.rank = .eq := Std.ReflCmp.compare_self
  rw [compare_eq, hrank]
  rfl

theorem bytes_timed (family : Family) (stem : List KeyComponent) (id : RunId) :
    timed family stem id = ⟨family, encodeAll stem ++ (numberBytes id.seconds ++
      (KeyComponent.encode (.text id.text) ++ []))⟩ := by
  rw [timed, ofComponents, encodeAll_append]
  rfl

theorem bytes_timeBound (family : Family) (stem : List KeyComponent) (seconds : UInt64) :
    timeBound family stem seconds = ⟨family, encodeAll stem ++ (numberBytes seconds ++ [])⟩ := by
  rw [timeBound, ofComponents, encodeAll_append]
  rfl

/-- Entries of one program are in the order of their run ids. -/
theorem compare_timed (family : Family) (stem : List KeyComponent) (id other : RunId) :
    compare (timed family stem id) (timed family stem other) = compare id other := by
  have hkind : (KeyComponent.text id.text).kind = (KeyComponent.text other.text).kind := rfl
  have htexts : order (.text id.text) (.text other.text) = compare id.text other.text :=
    Text.compare_utf8 _ _
  have hend : compare ([] : List UInt8) [] = .eq := rfl
  rw [bytes_timed, bytes_timed, compare_mk, Text.compare_append_self, compare_numberBytes_append,
    compare_encode_append hkind, htexts, hend, Ordering.then_eq]
  rfl

theorem timed_lt_timed_iff {family : Family} {stem : List KeyComponent} {id other : RunId} :
    timed family stem id < timed family stem other ↔ compare id other = .lt := by
  rw [lt_iff_compare, compare_timed]

/-- A bound is compared with an entry as their programs are, and then by second: the entries of the
second itself are above the bound. -/
theorem compare_timeBound_timed (family : Family) {stem others : List KeyComponent}
    (hkinds : stem.map kind = others.map kind) (seconds : UInt64) (id : RunId) :
    compare (timeBound family stem seconds) (timed family others id) =
      (List.compareLex order stem others).then ((compare seconds id.seconds).then .lt) := by
  have hend : compare [] (KeyComponent.encode (.text id.text) ++ []) = .lt := by
    rw [KeyReader.encode_text_append]
    cases escape (Text.utf8 id.text) <;> rfl
  rw [bytes_timed, bytes_timeBound, compare_mk, compare_encodeAll_append hkinds,
    compare_numberBytes_append, hend]

theorem timeBound_lt_timed_iff {family : Family} {stem others : List KeyComponent}
    (hkinds : stem.map kind = others.map kind) {seconds : UInt64} {id : RunId} :
    timeBound family stem seconds < timed family others id ↔
      List.compareLex order stem others = .lt ∨ stem = others ∧ seconds ≤ id.seconds := by
  rw [lt_iff_compare, compare_timeBound_timed family hkinds, Ordering.then_eq_lt,
    compareLex_order_eq_iff hkinds, ← UInt64.not_lt, ← Std.compare_eq_gt]
  cases compare seconds id.seconds <;> simp

theorem timed_lt_timeBound_iff {family : Family} {stem others : List KeyComponent}
    (hkinds : stem.map kind = others.map kind) {seconds : UInt64} {id : RunId} :
    timed family others id < timeBound family stem seconds ↔
      List.compareLex order stem others = .gt ∨ stem = others ∧ id.seconds < seconds := by
  rw [lt_iff_compare, ← Std.OrientedCmp.gt_iff_lt, compare_timeBound_timed family hkinds,
    Ordering.then_eq_gt, compareLex_order_eq_iff hkinds, ← Std.compare_eq_gt]
  cases compare seconds id.seconds <;> simp

/-- A bound is not above the entries of its program from its second on. -/
theorem not_timed_lt_timeBound_iff {family : Family} {stem : List KeyComponent} {seconds : UInt64}
    {id : RunId} :
    ¬ timed family stem id < timeBound family stem seconds ↔ seconds ≤ id.seconds := by
  have hstem : List.compareLex order stem stem = .eq := (compareLex_order_eq_iff rfl).mpr rfl
  rw [timed_lt_timeBound_iff rfl, hstem]
  simp

/-- Between two bounds of a program there are its own entries of the seconds from the first up to
the second, and no others. -/
theorem between_timeBounds_iff {family : Family} {stem others : List KeyComponent}
    (hkinds : stem.map kind = others.map kind) {first last : UInt64} {id : RunId} :
    ¬ timed family others id < timeBound family stem first ∧
        ¬ timeBound family stem last < timed family others id ↔
      stem = others ∧ first ≤ id.seconds ∧ id.seconds < last := by
  rw [timed_lt_timeBound_iff hkinds, timeBound_lt_timed_iff hkinds]
  constructor
  · rintro ⟨hfirst, hlast⟩
    rw [not_or] at hfirst hlast
    have hstem : stem = others := by
      rw [← compareLex_order_eq_iff hkinds]
      cases hcompare : List.compareLex order stem others with
      | lt => exact absurd hcompare hlast.1
      | eq => rfl
      | gt => exact absurd hcompare hfirst.1
    exact ⟨hstem, UInt64.not_lt.mp fun hlt ↦ hfirst.2 ⟨hstem, hlt⟩,
      UInt64.not_le.mp fun hle ↦ hlast.2 ⟨hstem, hle⟩⟩
  · rintro ⟨hstem, hfirst, hlast⟩
    have hcompare := (compareLex_order_eq_iff hkinds).mpr hstem
    rw [hcompare]
    simp [UInt64.not_lt.mpr hfirst, UInt64.not_le.mpr hlast]

/-- No entry is level with a bound. -/
theorem timed_lt_timeBound_iff_not {family : Family} {stem others : List KeyComponent}
    (hkinds : stem.map kind = others.map kind) {seconds : UInt64} {id : RunId} :
    timed family others id < timeBound family stem seconds ↔
      ¬ timeBound family stem seconds < timed family others id := by
  rw [lt_iff_compare, lt_iff_compare, ← Std.OrientedCmp.gt_iff_lt,
    compare_timeBound_timed family hkinds]
  cases List.compareLex order stem others <;> cases compare seconds id.seconds <;> decide

/-- A window from one bound of a program to another holds its own entries of that time alone. -/
theorem isBetween_timeBounds_iff {family : Family} {stem others : List KeyComponent}
    (hkinds : stem.map kind = others.map kind) {first last : UInt64} {id : RunId} :
    isBetween (timeBound family stem first) (timeBound family stem last)
        (timed family others id) = true ↔
      stem = others ∧ first ≤ id.seconds ∧ id.seconds < last := by
  rw [isBetween_iff, @timed_lt_timeBound_iff_not _ _ _ hkinds last, between_timeBounds_iff hkinds]

/-! ### Index entries in the order of listings -/

/-- Index entries under one status are in the order of their run ids, and those of one run id in the
order of their programs. -/
theorem compare_statusIndex (status : RunStatus) (program other : ProgramId) (id otherId : RunId) :
    compare (statusIndex status program id) (statusIndex status other otherId) =
      (compare id otherId).then (compare program other) := by
  let components (program : ProgramId) (id : RunId) : List KeyComponent :=
    [.byte status.code, .number id.seconds, .text id.text] ++ program.keyComponents
  have hend : compare ([] : List UInt8) [] = .eq := rfl
  have hstatus : order (.byte status.code) (.byte status.code) = .eq :=
    (order_eq_iff rfl).mpr rfl
  have htext (first second : String) : order (.text first) (.text second) = compare first second :=
    Text.compare_utf8 first second
  have hcompare :=
    @compare_encodeAll_append (components program id) (components other otherId) rfl [] []
  rw [List.append_nil, List.append_nil, hend, Ordering.then_eq] at hcompare
  rw [statusIndex, statusIndex, ofComponents, ofComponents, compare_mk, hcompare]
  simp only [components, ProgramId.keyComponents, List.cons_append, List.nil_append,
    List.compareLex_cons_cons, hstatus, htext, List.compareLex_nil_nil, Ordering.then_eq]
  exact (Ordering.then_assoc (compare id.seconds otherId.seconds) (compare id.text otherId.text)
    (compare program other)).symm

theorem kinds_keyComponents (first second : ProgramId) :
    first.keyComponents.map kind = second.keyComponents.map kind := rfl

theorem kinds_workflowComponents (first second : ProgramId) :
    (workflowComponents first).map kind = (workflowComponents second).map kind := rfl

theorem keyComponents_inj {first second : ProgramId} :
    first.keyComponents = second.keyComponents ↔ first = second := by
  constructor
  · exact fun hequal ↦ program_of_components (congrArg encodeAll hequal)
  · rintro rfl
    rfl

theorem workflowComponents_inj {first second : ProgramId} :
    workflowComponents first = workflowComponents second ↔
      first.namespaceName = second.namespaceName ∧ first.application = second.application ∧
        first.name = second.name := by
  simp [workflowComponents]

end Key

/-- The bytes of components are in the lexicographic order of the components if these are of the
same kinds, and the first component that differs decides whatever follows it. So the records of a
program's runs are in the order of their run ids, a time bound is not above those from its second
on, and between two bounds there are the program's own records of that time and no others; and the
summaries of a workflow are laid out alike. -/
theorem keys_ordered_as_components :
    (∀ first second : List KeyComponent,
      first.map KeyComponent.kind = second.map KeyComponent.kind →
        compare (KeyComponent.encodeAll first) (KeyComponent.encodeAll second) =
          List.compareLex KeyComponent.order first second) ∧
    (∀ (shared : List KeyComponent) (first second : KeyComponent) (behind others : List UInt8),
      first.kind = second.kind → first ≠ second →
        compare (KeyComponent.encodeAll (shared ++ [first]) ++ behind)
            (KeyComponent.encodeAll (shared ++ [second]) ++ others) =
          KeyComponent.order first second ∧
        KeyComponent.order first second ≠ .eq) ∧
    (∀ (program other : ProgramId) (id later : RunId) (first last : UInt64),
      (Key.run program id < Key.run program later ↔ compare id later = .lt) ∧
      (¬ Key.run program id < Key.runTimeBound program first ↔ first ≤ id.seconds) ∧
      (¬ Key.run other id < Key.runTimeBound program first ∧
          ¬ Key.runTimeBound program last < Key.run other id ↔
        program = other ∧ first ≤ id.seconds ∧ id.seconds < last)) ∧
    (∀ (workflow other : ProgramId) (id later : RunId) (first last : UInt64),
      (Key.workflowRun workflow id < Key.workflowRun workflow later ↔ compare id later = .lt) ∧
      (¬ Key.workflowRun workflow id < Key.workflowRunTimeBound workflow first ↔
        first ≤ id.seconds) ∧
      (¬ Key.workflowRun other id < Key.workflowRunTimeBound workflow first ∧
          ¬ Key.workflowRunTimeBound workflow last < Key.workflowRun other id ↔
        (workflow.namespaceName = other.namespaceName ∧
          workflow.application = other.application ∧ workflow.name = other.name) ∧
        first ≤ id.seconds ∧ id.seconds < last)) := by
  refine ⟨fun first second hkinds ↦ ?_, fun shared first second behind others hkind hdiffer ↦ ?_,
    fun program other id later first last ↦ ⟨?_, ?_, ?_⟩,
    fun workflow other id later first last ↦ ⟨?_, ?_, ?_⟩⟩
  · have hend : compare ([] : List UInt8) [] = .eq := rfl
    have hbytes := KeyComponent.compare_encodeAll_append hkinds [] []
    rwa [List.append_nil, List.append_nil, hend, Ordering.then_eq] at hbytes
  · exact ⟨KeyComponent.compare_encodeAll_of_ne shared hkind hdiffer behind others,
      fun horder ↦ hdiffer ((KeyComponent.order_eq_iff hkind).mp horder)⟩
  · exact Key.timed_lt_timed_iff
  · exact Key.not_timed_lt_timeBound_iff
  · exact (Key.between_timeBounds_iff (Key.kinds_keyComponents program other)).trans
      (and_congr_left' Key.keyComponents_inj)
  · exact Key.timed_lt_timed_iff
  · exact Key.not_timed_lt_timeBound_iff
  · exact (Key.between_timeBounds_iff (Key.kinds_workflowComponents workflow other)).trans
      (and_congr_left' Key.workflowComponents_inj)

/-- A text is below one that goes on with a NUL or with the byte 1, although its own end is written
with these bytes, and whatever follows. -/
theorem keys_ordered_as_components_continued :
    ([.text "a", .number 256] : List KeyComponent).map KeyComponent.kind =
      ([.text "a\x00", .number 255] : List KeyComponent).map KeyComponent.kind ∧
    compare (KeyComponent.encodeAll [.text "a", .number 256])
      (KeyComponent.encodeAll [.text "a\x00", .number 255]) = .lt ∧
    (KeyComponent.text "a").kind = (KeyComponent.text "a\x01").kind ∧
    KeyComponent.text "a" ≠ KeyComponent.text "a\x01" ∧
    compare (KeyComponent.encodeAll ([.number 256] ++ [.text "a"]) ++ [255])
      (KeyComponent.encodeAll ([.number 256] ++ [.text "a\x01"]) ++ []) = .lt := by
  obtain ⟨hcomponents, hfirst, -⟩ := keys_ordered_as_components
  refine ⟨rfl, ?_, rfl, by decide, ?_⟩
  · exact (hcomponents [.text "a", .number 256] [.text "a\x00", .number 255] rfl).trans
      (by decide +kernel)
  · exact (hfirst [.number 256] (.text "a") (.text "a\x01") [255] [] rfl (by decide)).1.trans
      (by decide +kernel)

end RunLedger

import RunLedger.Proofs.Ledger.Commits

/-!
# The status index is exact

Entries of the status index are moved blindly: the old one is deleted under the status that the
transaction read, and nobody looks whether it is there. Nevertheless the index says exactly what the
records say, whatever interleaves (`statusIndex_exact`), since a status that was read is still the
recorded one when the transaction commits (`Commit.Sound.held`).

On the way stands what the index holds on consistent contents
(`Contents.Consistent.contains_statusIndex`).
-/

set_option autoImplicit false

namespace RunLedger

namespace Contents.Consistent

variable {contents : Contents} (hconsistent : contents.Consistent) (status : RunStatus)
  (program : ProgramId) (id : RunId)

include hconsistent

/-- On consistent contents a run is in the index under the status of its record alone. -/
theorem contains_statusIndex :
    contents.contains (Key.statusIndex status program id) = true ↔
      ∃ record, contents.run? program id = some record ∧ record.status = status := by
  rw [SortedMap.contains_eq, hconsistent.get?_statusIndex, Option.isSome_map,
    Option.isSome_iff_exists]
  constructor
  · rintro ⟨record, hrecord⟩
    obtain ⟨hrun, hstatus⟩ := Option.filter_eq_some_iff.mp hrecord
    exact ⟨record, hrun, by simpa using hstatus⟩
  · rintro ⟨record, hrun, hstatus⟩
    exact ⟨record, Option.filter_eq_some_iff.mpr ⟨hrun, by simpa using hstatus⟩⟩

/-- On consistent contents an index entry names its run. -/
theorem decode_statusIndex {value : Value}
    (hvalue : contents.get? (Key.statusIndex status program id) = some value) :
    (value.decode : Except Damage IndexEntry) = .ok ⟨program, id⟩ := by
  rw [hconsistent.get?_statusIndex] at hvalue
  obtain ⟨record, hrecord, rfl⟩ := Option.map_eq_some_iff.mp hvalue
  obtain ⟨-, rfl, rfl⟩ := hconsistent.of_run? (Option.filter_eq_some_iff.mp hrecord).1
  exact decode_indexEntry _

end Contents.Consistent

/-- In every state of every interleaving, whatever fails, the index entry of a run under a status is
live exactly if the record of the run is live and decodes to one with that status, and a live entry
decodes to its program and run id. -/
theorem statusIndex_exact (failsRead failsWrite : Nat → Bool) (config : Config)
    (events : List (Event Operation)) (status : RunStatus) (program : ProgramId) (id : RunId) :
    let live := ((System.initial failsRead failsWrite config).run Operation.program
      events).database.substrate.store.live
    (live.contains (Key.statusIndex status program id) = true ↔
      ∃ value record, live.get? (Key.run program id) = some value ∧
        (value.decode : Except Damage RunRecord) = .ok record ∧ record.status = status) ∧
    ∀ value, live.get? (Key.statusIndex status program id) = some value →
      (value.decode : Except Damage IndexEntry) = .ok ⟨program, id⟩ := by
  intro live
  have hsound := System.sound_run Operation.program failsRead failsWrite config events
  have hconsistent : live.Consistent := by
    have hlive : live = _ := hsound.live
    rw [hlive]
    exact hsound.consistent _
  constructor
  · rw [hconsistent.contains_statusIndex]
    constructor
    · rintro ⟨record, hrun, hstatus⟩
      obtain ⟨value, hvalue, hdecode⟩ := Contents.run?_eq_some_iff.mp hrun
      exact ⟨value, record, hvalue, hdecode, hstatus⟩
    · rintro ⟨value, record, hvalue, hdecode, hstatus⟩
      exact ⟨record, Contents.run?_eq_some_iff.mpr ⟨value, hvalue, hdecode⟩, hstatus⟩
  · intro value hvalue
    exact hconsistent.decode_statusIndex status program id hvalue

end RunLedger

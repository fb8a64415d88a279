import RunLedger.Proofs.Database.Snapshots
import RunLedger.Proofs.Store.Chronicle
import RunLedger.Proofs.Transaction.Uses

/-!
# Transactions in any order on one database

A `Pool` is a database with the transactions begun on it, each as an object that is there until it
is dropped. An `Event` begins a transaction, does something to one of those that are there, drops
one, or collects. What is done to a transaction (`Handling`) need not make sense: it may be
committed again, aborted after its commitment, or called when it is no longer active, and the store
may fail.

`Pool.Steps` lists what an event can make of a pool. In each of these cases the coordinator goes on
to count the snapshots of the transactions that are there (`Steps.sound`), and what is read at one
of them stays (`Steps.get?`). So a transaction reads as long as it is there what it would have read
at its beginning (`reads_repeat`).
-/

set_option autoImplicit false

namespace RunLedger

/-! ### What is done to a transaction -/

/-- What is done to a transaction: calls of a script, the end of its operation by a commit or for a
failure, or an abort. -/
inductive Handling where
  | call (script : Script Unit)
  | conclude (outcome : Except Failure Unit)
  | abort (reason : String)

namespace Database

/-- A transaction behind what is done to it, and the database. -/
def handle (database : Database) (transaction : Transaction) : Handling → Transaction × Database
  | .call script =>
    let (_, transaction, substrate) := script.run transaction database.substrate
    (transaction, { database with substrate })
  | .conclude outcome => (database.conclude transaction outcome).2
  | .abort reason => (transaction.aborted reason, database)

/-- Readers are as before, and what they find at the versions that are read and not above that of
the store. -/
structure Spares (before after : Database) : Prop where
  active : after.coordinator.active = before.coordinator.active
  version : before.substrate.store.version ≤ after.substrate.store.version
  get? : ∀ version, before.coordinator.active.contains version = true →
    version ≤ before.substrate.store.version → ∀ key,
      after.substrate.store.get? key version = before.substrate.store.get? key version

theorem Spares.refl (database : Database) : database.Spares database :=
  ⟨rfl, Nat.le_refl _, fun _ _ _ _ ↦ rfl⟩

theorem Spares.of_store {before after : Database}
    (hactive : after.coordinator.active = before.coordinator.active)
    (hstore : after.substrate.store = before.substrate.store) : before.Spares after where
  active := hactive
  version := Nat.le_of_eq (by rw [hstore])
  get? version _ _ key := by rw [hstore]

theorem Spares.of_collected {before after : Database}
    (hactive : after.coordinator.active = before.coordinator.active) {current : Nat}
    (hcollected : Store.Collected (before.coordinator.horizon current) before.substrate.store
      after.substrate.store) : before.Spares after where
  active := hactive
  version := Nat.le_of_eq hcollected.version.symm
  get? version hread _ key :=
    hcollected.get? key version (Coordinator.horizon_le_of_contains hread current)

theorem spares_collect (database : Database) : database.Spares database.collect.2 :=
  .of_collected rfl database.collect_collected

/-- A commit is above all that is read, and the collection behind it is below. -/
theorem Concludes.spares {α : Type} {before after : Database} {transaction : Transaction}
    {outcome ended : Except Failure α}
    (hconcludes : before.Concludes transaction outcome ended after)
    (hsame : before.SameReaders after) : before.Spares after := by
  cases hconcludes with
  | failed hstore | conflicts hstore | outage hstore => exact .of_store hsame.active hstore
  | readOnly hreadOnly hcollected => exact .of_collected hsame.active hcollected
  | committed hreadOnly hvalid happly hcollected =>
    have hnewer := (Store.apply_eq_ok happly).1
    refine ⟨hsame.active, ?_, fun version hread hversion key ↦ ?_⟩
    · rw [hcollected.version, Store.version_apply happly]
      exact Nat.le_of_lt hnewer
    · have hbelow : ¬ nextVersion before.substrate.store.version ≤ version :=
        Nat.not_le_of_lt (Nat.lt_of_le_of_lt hversion hnewer)
      rw [hcollected.get? key version (Coordinator.horizon_le_of_contains hread _),
        Store.get?_apply happly (SortedMap.nodup_keys transaction.writes), if_neg hbelow]

/-- Whatever is done to a transaction spares what is read, and leaves the version it reads at. -/
theorem spares_handle (database : Database) (transaction : Transaction) (handling : Handling) :
    database.Spares (database.handle transaction handling).2 ∧
      (database.handle transaction handling).1.snapshot? = transaction.snapshot? := by
  cases handling with
  | call script =>
    have huses := Transaction.uses_run script transaction database.substrate
    exact ⟨.of_store rfl huses.onlyRead.store, huses.snapshot?⟩
  | abort reason => exact ⟨.of_store rfl rfl, transaction.snapshot?_aborted reason⟩
  | conclude outcome =>
    by_cases hactive : transaction.status = .active
    · obtain ⟨hconcludes, hsame, hsnapshot⟩ := concludes_conclude hactive database outcome
      exact ⟨hconcludes.spares hsame, hsnapshot⟩
    · cases outcome with
      | error failure => exact ⟨.of_store rfl rfl, transaction.snapshot?_aborted _⟩
      | ok result =>
        obtain ⟨after, hcommit, hsnapshot⟩ :=
          Transaction.commitOrAbort_of_not_active hactive database.substrate
        simp only [handle, conclude, commit, hcommit]
        exact ⟨.of_store rfl rfl, hsnapshot⟩

end Database

/-! ### Pools -/

/-- A database and the transactions begun on it, in their order, as far as they are still there. -/
structure Pool where
  database : Database
  transactions : List (Option Transaction)

namespace Pool

/-- What happens next. -/
inductive Event where
  | begin
  | handle (place : Nat) (handling : Handling)
  | drop (place : Nat)
  | collect

/-- A database before the first transaction. -/
def initial (substrate : Substrate) (config : Config) : Pool :=
  ⟨{ substrate, coordinator := .initial, config }, []⟩

/-- The store of the database. -/
def store (pool : Pool) : Store := pool.database.substrate.store

/-- The transaction begun in so many-th place, if it is still there. -/
def transaction? (pool : Pool) (place : Nat) : Option Transaction := pool.transactions[place]?.join

/-- The version that a transaction reads at, if it is still there. -/
def readVersion? (transaction? : Option Transaction) : Option Nat := transaction? >>= (·.snapshot?)

/-- The versions of the snapshots of the transactions that are still there. -/
def snapshots (pool : Pool) : List Nat := pool.transactions.filterMap readVersion?

/-- One event. An event for a transaction that is not there changes nothing. -/
def step (pool : Pool) : Event → Pool
  | .begin =>
    let (transaction, database) := pool.database.begin
    ⟨database, pool.transactions ++ [some transaction]⟩
  | .handle place handling =>
    match pool.transaction? place with
    | none => pool
    | some transaction =>
      let (transaction, database) := pool.database.handle transaction handling
      ⟨database, pool.transactions.set place (some transaction)⟩
  | .drop place =>
    match pool.transaction? place with
    | none => pool
    | some transaction =>
      ⟨pool.database.release transaction, pool.transactions.set place none⟩
  | .collect => { pool with database := pool.database.collect.2 }

/-- Events one after the other. -/
def run (pool : Pool) (events : List Event) : Pool := events.foldl step pool

/-- The coordinator counts the snapshots of the transactions that are there, and none of them is
above the store. -/
structure Sound (pool : Pool) : Prop where
  counts : pool.database.coordinator.Counts fun version ↦ pool.snapshots.count version
  le_version : ∀ version ∈ pool.snapshots, version ≤ pool.store.version

theorem sound_initial (substrate : Substrate) (config : Config) :
    (initial substrate config).Sound :=
  ⟨Coordinator.counts_initial, fun version hversion ↦ by cases hversion⟩

variable {pool : Pool}

theorem getElem?_of_transaction? {place : Nat} {transaction : Transaction}
    (hthere : pool.transaction? place = some transaction) :
    pool.transactions[place]? = some (some transaction) :=
  Option.join_eq_some_iff.mp hthere

/-- The version at which a transaction reads is among the snapshots as long as it is there. -/
theorem mem_snapshots {place version : Nat} {transaction : Transaction}
    (hthere : pool.transaction? place = some transaction)
    (hsnapshot : transaction.snapshot? = some version) : version ∈ pool.snapshots :=
  List.mem_filterMap.mpr ⟨some transaction,
    List.mem_of_getElem? (getElem?_of_transaction? hthere), hsnapshot⟩

/-- What putting something else in the place of a transaction does to the count of a version. -/
theorem count_snapshots_set {place : Nat} {transaction : Transaction}
    (hthere : pool.transaction? place = some transaction) (after? : Option Transaction)
    (version : Nat) :
    ((pool.transactions.set place after?).filterMap readVersion?).count version =
      pool.snapshots.count version - (if transaction.snapshot? = some version then 1 else 0) +
        if readVersion? after? = some version then 1 else 0 := by
  obtain ⟨hplace, hget⟩ := List.getElem?_eq_some_iff.mp (getElem?_of_transaction? hthere)
  rw [snapshots, List.count_filterMap, List.count_filterMap, List.countP_set hplace, hget]
  simp only [beq_iff_eq]
  rfl

/-- Exchanging a transaction for one that reads at the same version leaves the counts. -/
theorem count_snapshots_exchanged {place : Nat} {transaction after : Transaction}
    (hthere : pool.transaction? place = some transaction)
    (hsnapshot : after.snapshot? = transaction.snapshot?) (version : Nat) :
    ((pool.transactions.set place (some after)).filterMap readVersion?).count version =
      pool.snapshots.count version := by
  rw [count_snapshots_set hthere]
  change _ + (if after.snapshot? = some version then 1 else 0) = _
  rw [hsnapshot]
  split
  · rename_i hversion
    have hcounted := List.count_pos_iff.mpr (mem_snapshots hthere hversion)
    omega
  · omega

/-- The counts and bounds of a pool carry over to one with the same counts on a database that spares
what is read. -/
theorem Sound.of_spares (hsound : pool.Sound) {after : Pool}
    (hspares : pool.database.Spares after.database)
    (hcount : ∀ version, after.snapshots.count version = pool.snapshots.count version) :
    after.Sound where
  counts := by
    rw [funext hcount]
    exact hsound.counts.congr hspares.active
  le_version version hversion := by
    have hbefore : version ∈ pool.snapshots :=
      List.count_pos_iff.mp (hcount version ▸ List.count_pos_iff.mpr hversion)
    exact Nat.le_trans (hsound.le_version version hbefore) hspares.version

/-- A transaction that is dropped is counted no more. -/
theorem Sound.release (hsound : pool.Sound) {place : Nat} {transaction : Transaction}
    (hthere : pool.transaction? place = some transaction) :
    Sound ⟨pool.database.release transaction, pool.transactions.set place none⟩ := by
  have hcount := count_snapshots_set hthere none
  have hbound : ∀ version, version ∈ (pool.transactions.set place none).filterMap readVersion? →
      version ≤ pool.store.version := by
    intro version hversion
    have hless := hcount version
    have hcounted := List.count_pos_iff.mpr hversion
    refine hsound.le_version version (List.count_pos_iff.mp ?_)
    change _ = _ + 0 at hless
    omega
  unfold Database.release
  cases hsnapshot : transaction.snapshot? with
  | none =>
    refine ⟨?_, hbound⟩
    refine ⟨fun version ↦ (hsound.counts.count version).trans ?_, hsound.counts.positive⟩
    exact ((hcount version).trans (by rw [hsnapshot]; rfl)).symm
  | some read =>
    have hread : 0 < pool.snapshots.count read :=
      List.count_pos_iff.mpr (mem_snapshots hthere hsnapshot)
    have hcounts := hsound.counts.release hread
    refine ⟨⟨fun version ↦ (hcounts.count version).trans ?_, hcounts.positive⟩, hbound⟩
    refine Eq.trans ?_ (hcount version).symm
    rw [hsnapshot]
    by_cases hversion : version = read
    · simp [hversion, readVersion?]
    · simp [hversion, Ne.symm hversion, readVersion?]

/-! ### Single events -/

/-- What an event can make of a pool. -/
inductive Steps (pool : Pool) : Pool → Prop
  /-- A transaction has begun. -/
  | begun :
    Steps pool ⟨pool.database.begin.2, pool.transactions ++ [some pool.database.begin.1]⟩
  /-- Something was done to a transaction, and what is read was spared. -/
  | handled {place : Nat} {transaction after : Transaction} {database : Database}
    (hthere : pool.transaction? place = some transaction)
    (hsnapshot : after.snapshot? = transaction.snapshot?)
    (hspares : pool.database.Spares database) :
    Steps pool ⟨database, pool.transactions.set place (some after)⟩
  /-- A transaction was dropped. -/
  | dropped {place : Nat} {transaction : Transaction}
    (hthere : pool.transaction? place = some transaction) :
    Steps pool ⟨pool.database.release transaction, pool.transactions.set place none⟩
  /-- The transactions are as they were, and what is read was spared. -/
  | spared {database : Database} (hspares : pool.database.Spares database) :
    Steps pool ⟨database, pool.transactions⟩

theorem steps_step (pool : Pool) (event : Event) : pool.Steps (pool.step event) := by
  cases event with
  | begin => exact .begun
  | collect => exact .spared pool.database.spares_collect
  | handle place handling =>
    rw [step]
    split
    · exact .spared (.refl _)
    · rename_i transaction hthere
      obtain ⟨hspares, hsnapshot⟩ := pool.database.spares_handle transaction handling
      exact .handled hthere hsnapshot hspares
  | drop place =>
    rw [step]
    split
    · exact .spared (.refl _)
    · rename_i transaction hthere
      exact .dropped hthere

variable {after : Pool}

/-- A transaction that begins reads at the version of the store and is counted. -/
theorem Sound.begun (hsound : pool.Sound) :
    Sound ⟨pool.database.begin.2, pool.transactions ++ [some pool.database.begin.1]⟩ := by
  have hsnapshots : snapshots ⟨pool.database.begin.2,
      pool.transactions ++ [some pool.database.begin.1]⟩ = pool.snapshots ++ [pool.store.version] :=
    List.filterMap_append
  refine ⟨?_, fun version hversion ↦ ?_⟩
  · have hcounts := hsound.counts.begin pool.store.version
    refine ⟨fun version ↦ (hcounts.count version).trans ?_, hcounts.positive⟩
    rw [hsnapshots, List.count_append, List.count_singleton]
    by_cases hversion : version = pool.store.version
    · simp [hversion]
    · simp [hversion, Ne.symm hversion]
  · rw [hsnapshots] at hversion
    rcases List.mem_append.mp hversion with hbefore | hnew
    · exact hsound.le_version version hbefore
    · exact Nat.le_of_eq (List.mem_singleton.mp hnew)

/-- The counts stay right. -/
theorem Steps.sound (hsteps : pool.Steps after) (hsound : pool.Sound) : after.Sound := by
  cases hsteps with
  | begun => exact hsound.begun
  | handled hthere hsnapshot hspares =>
    exact hsound.of_spares hspares (count_snapshots_exchanged hthere hsnapshot)
  | dropped hthere => exact hsound.release hthere
  | spared hspares => exact hsound.of_spares hspares fun _ ↦ rfl

/-- What is read at the snapshot of a transaction that is there stays. -/
theorem Steps.get? (hsteps : pool.Steps after) (hsound : pool.Sound) {version : Nat}
    (hversion : version ∈ pool.snapshots) (key : Key) :
    after.store.get? key version = pool.store.get? key version := by
  have hread := hsound.counts.contains (List.count_pos_iff.mpr hversion)
  have hbound := hsound.le_version version hversion
  cases hsteps with
  | begun => rfl
  | handled hthere hsnapshot hspares => exact hspares.get? version hread hbound key
  | dropped hthere => rw [store, store, Database.substrate_release]
  | spared hspares => exact hspares.get? version hread hbound key

/-- A transaction that is there and had begun before was there before, and read at the same
version. -/
theorem Steps.exists_before (hsteps : pool.Steps after) {place : Nat} {latter : Transaction}
    (hplace : place < pool.transactions.length)
    (hlatter : after.transaction? place = some latter) :
    ∃ former, pool.transaction? place = some former ∧ latter.snapshot? = former.snapshot? := by
  cases hsteps with
  | begun =>
    rw [transaction?, List.getElem?_append_left hplace] at hlatter
    exact ⟨latter, hlatter, rfl⟩
  | spared hspares => exact ⟨latter, hlatter, rfl⟩
  | @handled other transaction exchanged database hthere hsnapshot hspares =>
    by_cases hother : other = place
    · subst hother
      rw [transaction?, List.getElem?_set_self hplace] at hlatter
      obtain rfl : exchanged = latter := Option.some.inj hlatter
      exact ⟨transaction, hthere, hsnapshot⟩
    · rw [transaction?, List.getElem?_set_ne hother] at hlatter
      exact ⟨latter, hlatter, rfl⟩
  | @dropped other transaction hthere =>
    by_cases hother : other = place
    · subst hother
      rw [transaction?, List.getElem?_set_self hplace] at hlatter
      cases hlatter
    · rw [transaction?, List.getElem?_set_ne hother] at hlatter
      exact ⟨latter, hlatter, rfl⟩

theorem Steps.length_le (hsteps : pool.Steps after) :
    pool.transactions.length ≤ after.transactions.length := by
  cases hsteps <;> simp

/-! ### Runs -/

theorem Sound.run (hsound : pool.Sound) (events : List Event) : (pool.run events).Sound := by
  induction events generalizing pool with
  | nil => exact hsound
  | cons event rest ih => exact ih ((pool.steps_step event).sound hsound)

/-- A transaction that is still there behind any events was there before, reads at the same version,
and finds there what it found. -/
theorem Sound.exists_before_run (hsound : pool.Sound) {events : List Event} {place : Nat}
    {latter : Transaction} (hplace : place < pool.transactions.length)
    (hlatter : (pool.run events).transaction? place = some latter) :
    ∃ former, pool.transaction? place = some former ∧ latter.snapshot? = former.snapshot? ∧
      ∀ version, former.snapshot? = some version → ∀ key,
        (pool.run events).store.get? key version = pool.store.get? key version := by
  induction events generalizing pool with
  | nil => exact ⟨latter, hlatter, rfl, fun _ _ _ ↦ rfl⟩
  | cons event rest ih =>
    have hsteps := pool.steps_step event
    obtain ⟨between, hbetween, hsnapshot, hget⟩ :=
      ih (hsteps.sound hsound) (Nat.lt_of_lt_of_le hplace hsteps.length_le) hlatter
    obtain ⟨former, hformer, hsame⟩ := hsteps.exists_before hplace hbetween
    refine ⟨former, hformer, hsnapshot.trans hsame, fun version hversion key ↦ ?_⟩
    exact (hget version (hsame.trans hversion) key).trans
      (hsteps.get? hsound (mem_snapshots hformer hversion) key)

end Pool

/-- Whatever has happened and whatever happens behind the beginning of a transaction: the
coordinator counts just the snapshots of the transactions that are there, the horizon is above none
of them, and as long as the transaction is there it reads at the version of its beginning, where
every key and every scan shows what it showed then. -/
theorem reads_repeat (substrate : Substrate) (config : Config) (events more : List Pool.Event) :
    let before := (Pool.initial substrate config).run events
    let begun := before.step .begin
    let after := begun.run more
    after.database.coordinator.Counts (fun version ↦ after.snapshots.count version) ∧
    (∀ version ∈ after.snapshots, after.database.horizon ≤ version) ∧
    ∀ transaction, after.transaction? before.transactions.length = some transaction →
      ∃ version, transaction.snapshot? = some version ∧ version = begun.store.version ∧
        (∀ key, after.store.get? key version = begun.store.get? key version) ∧
        (∀ stem, after.store.scanStem stem version = begun.store.scanStem stem version) ∧
        ∀ first last, after.store.scanRange first last version =
          begun.store.scanRange first last version := by
  intro before begun after
  have hbegun : begun.Sound :=
    (before.steps_step .begin).sound ((Pool.sound_initial substrate config).run events)
  have hafter : after.Sound := hbegun.run more
  refine ⟨hafter.counts, fun version hversion ↦
    hafter.counts.horizon_le (List.count_pos_iff.mpr hversion) _, fun transaction hthere ↦ ?_⟩
  have hplace : before.transactions.length < begun.transactions.length := by
    simp [begun, Pool.step]
  obtain ⟨first, hfirst, hsnapshot, hget⟩ := hbegun.exists_before_run hplace hthere
  have hread : first.snapshot? = some begun.store.version := by
    have hnew : begun.transaction? before.transactions.length = some before.database.begin.1 := by
      simp [begun, Pool.step, Pool.transaction?]
    rw [← Option.some.inj (hnew.symm.trans hfirst)]
    rfl
  -- both stores show the same rows there
  have hthen := begun.store.shows_rowsAt begun.store.version
  have hnow : after.store.Shows begun.store.version (begun.store.rowsAt begun.store.version) :=
    Store.shows_of_get? fun key ↦ (hget _ hread key).trans (hthen.get? key)
  exact ⟨begun.store.version, hsnapshot.trans hread, rfl, hget _ hread,
    fun stem ↦ (hnow.scanStem stem).trans (hthen.scanStem stem).symm,
    fun first last ↦ (hnow.scanRange first last).trans (hthen.scanRange first last).symm⟩

/-- A transaction in some place that runs a script, is committed, and is dropped. -/
def Pool.working (place : Nat) (script : Script Unit) : List Pool.Event :=
  [.begin, .handle place (.call script), .handle place (.conclude (.ok ())), .drop place]

/-- A reader still finds the value of a key that another transaction has deleted, though that commit
was followed by a collection. -/
theorem reads_repeat_deleted :
    let key : Key := ⟨.run, []⟩
    let begun := ((Pool.initial (.reliable .empty) .standard).run
      (Pool.working 0 (.write key .empty))).step .begin
    let after := begun.run (Pool.working 2 (.erase key))
    after.store.version = 2 ∧ after.store.get? key 2 = none ∧
      after.store.get? key 1 = some ⟨.empty, 1⟩ := by
  intro key begun after
  have hthere : (after.transaction? 1).isSome = true := by decide +kernel
  obtain ⟨reader, hreader⟩ := Option.isSome_iff_exists.mp hthere
  obtain ⟨version, -, hversion, hget, -⟩ := (reads_repeat (.reliable .empty) .standard
    (Pool.working 0 (.write key .empty)) (Pool.working 2 (.erase key))).2.2 reader hreader
  obtain rfl : version = 1 := hversion.trans (by decide +kernel)
  refine ⟨by decide +kernel, by decide +kernel, (hget key).trans ?_⟩
  decide +kernel

end RunLedger

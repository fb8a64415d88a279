import RunLedger.Proofs.Key.ComponentOrder
import RunLedger.Proofs.Ledger.Listings
import RunLedger.Proofs.Ledger.Registrations
import RunLedger.Proofs.Stored.Faithfulness

/-!
# The states of the nodes of a run

A state is written under the key of its node, so it takes the place of the one written for that node
before. As long as nothing goes through a scope, the keys of node states hold the last states that
were written there, in the order of the commits, and nothing else (`Contents.Posted`). A request
that is answered has posted what it says, one that failed has posted nothing
(`Progress.Request.posts`), and neither depends on what it has read.

The stem of a run finds the keys of its own nodes alone, in the order of the UTF-8 bytes of the
nodes (`Key.compare_nodeState`), so the node states of a run are listed as a map
(`Contents.Posted.lists`). Transactions may ask several things and decide by the answers
(`Progress.Visit`); what they list is what was posted up to their snapshots and then by themselves.
-/

set_option autoImplicit false

namespace RunLedger

open Script

variable {α β : Type}

/-! ### Keys of node states -/

/-- The keys of the node states of a run are in the order of the bytes of the nodes. -/
theorem Key.compare_nodeState (workflow : ProgramId) (id : RunId) (first second : String) :
    compare (nodeState workflow id first) (nodeState workflow id second) =
      compare (Text.utf8 first) (Text.utf8 second) := by
  have hnode (node : String) : nodeState workflow id node =
      ⟨.nodeState, KeyComponent.encodeAll (workflow.keyComponents ++ [.text id.text]) ++
        (KeyComponent.encode (.text node) ++ [])⟩ := by
    rw [nodeState, ofComponents]
    simp [KeyComponent.encodeAll]
  have hkind : (KeyComponent.text first).kind = (KeyComponent.text second).kind := rfl
  have hend : compare ([] : List UInt8) [] = .eq := rfl
  rw [hnode, hnode, compare_mk, Text.compare_append_self,
    KeyComponent.compare_encode_append hkind, hend, Ordering.then_eq]
  rfl

/-! ### States that are written -/

/-- A state written for a node of a workflow run. -/
structure NodePost where
  workflow : ProgramId
  id : RunId
  state : NodeState

namespace NodePost

/-- Where the state is written. -/
def key (post : NodePost) : Key := Key.nodeState post.workflow post.id post.state.node

/-- The last state written under a key. -/
def lastUnder? (posts : List NodePost) (key : Key) : Option NodeState :=
  ((posts.filter fun post ↦ post.key = key).getLast?).map (·.state)

/-- The last state written for a node of a workflow run. -/
def last? (posts : List NodePost) (workflow : ProgramId) (id : RunId) (node : String) :
    Option NodeState :=
  ((posts.filter fun post ↦
    post.workflow = workflow ∧ post.id = id ∧ post.state.node = node).getLast?).map (·.state)

variable {posts : List NodePost} {workflow : ProgramId} {id : RunId} {node : String}

/-- What is written for another node, run or program is written elsewhere. -/
theorem lastUnder?_nodeState :
    lastUnder? posts (Key.nodeState workflow id node) = last? posts workflow id node := by
  have hkey (post : NodePost) : decide (post.key = Key.nodeState workflow id node) =
      decide (post.workflow = workflow ∧ post.id = id ∧ post.state.node = node) := by
    refine decide_eq_decide.mpr ⟨Key.nodeState_inj, ?_⟩
    rintro ⟨rfl, rfl, rfl⟩
    rfl
  simp only [lastUnder?, last?, hkey]

theorem lastUnder?_append (earlier later : List NodePost) (key : Key) :
    lastUnder? (earlier ++ later) key = (lastUnder? later key).or (lastUnder? earlier key) := by
  simp only [lastUnder?, List.filter_append, List.getLast?_append]
  cases (later.filter fun post ↦ post.key = key).getLast? <;> simp

theorem exists_of_lastUnder? {key : Key} {state : NodeState}
    (hlast : lastUnder? posts key = some state) :
    ∃ workflow id, key = Key.nodeState workflow id state.node := by
  obtain ⟨post, hpost, rfl⟩ := Option.map_eq_some_iff.mp hlast
  have hmem := List.mem_of_getLast? hpost
  rw [List.mem_filter, decide_eq_true_iff] at hmem
  exact ⟨post.workflow, post.id, hmem.2.symm⟩

theorem lastUnder?_ne_none {post : NodePost} (hmem : post ∈ posts) :
    lastUnder? posts post.key ≠ none := by
  intro hnone
  rw [lastUnder?, Option.map_eq_none_iff, List.getLast?_eq_none_iff, List.filter_eq_nil_iff]
    at hnone
  exact hnone post hmem (decide_eq_true rfl)

/-- The states of the nodes of a run are those last written for each node of it, in ascending byte
order of the nodes. -/
structure Lists (posts : List NodePost) (workflow : ProgramId) (id : RunId)
    (states : List NodeState) : Prop where
  ascending : states.Pairwise fun first second ↦
    compare (Text.utf8 first.node) (Text.utf8 second.node) = .lt
  mem_iff : ∀ state, state ∈ states ↔ last? posts workflow id state.node = some state

end NodePost

/-! ### Contents -/

/-- The keys of node states hold what was last written there, and nothing else. -/
def Contents.Posted (contents : Contents) (posts : List NodePost) : Prop :=
  ∀ key : Key, key.family = .nodeState →
    contents.get? key = (NodePost.lastUnder? posts key).map Value.ofRecord

namespace Contents.Posted

variable {contents : Contents} {posts : List NodePost}

theorem empty : (∅ : Contents).Posted [] := fun _ _ ↦ rfl

/-- Where nothing is, nothing was written. -/
theorem eq_nil (hposted : (∅ : Contents).Posted posts) : posts = [] := by
  refine List.eq_nil_iff_forall_not_mem.mpr fun post hmem ↦ ?_
  have hnone : (∅ : Contents).get? post.key = none := rfl
  rw [hposted post.key rfl, Option.map_eq_none_iff] at hnone
  exact NodePost.lastUnder?_ne_none hmem hnone

/-- The node states of a run are read as they were last written. -/
theorem lists (hposted : contents.Posted posts) (workflow : ProgramId) (id : RunId) :
    NodePost.Lists posts workflow id
      (Runs.decodeAll (contents.rowsUnder (Key.nodeStatesOfRun workflow id))) := by
  let row (state : NodeState) : Key × Value :=
    (Key.nodeState workflow id state.node, .ofRecord state)
  have hdecode (state : NodeState) : (Value.ofRecord state).decode = .ok state :=
    decode_of_readsBack readsBack_nodeState state
  have hlast (node : String) : contents.get? (Key.nodeState workflow id node) =
      (NodePost.last? posts workflow id node).map Value.ofRecord := by
    rw [hposted _ rfl, NodePost.lastUnder?_nodeState]
  have hrows (key : Key) (value : Value) (hvalue : contents.get? key = some value)
      (hstem : key.startsWith (Key.nodeStatesOfRun workflow id) = true) :
      ∃ state, NodePost.last? posts workflow id state.node = some state ∧
        row state = (key, value) := by
    rw [hposted key (Key.startsWith_iff.mp hstem).1] at hvalue
    obtain ⟨state, hstate, rfl⟩ := Option.map_eq_some_iff.mp hvalue
    obtain ⟨other, otherId, rfl⟩ := NodePost.exists_of_lastUnder? hstate
    obtain ⟨rfl, rfl⟩ := Key.nodeState_startsWith_iff.mp hstem
    exact ⟨state, NodePost.lastUnder?_nodeState ▸ hstate, rfl⟩
  have howned (state : NodeState)
      (hstate : NodePost.last? posts workflow id state.node = some state) :
      contents.get? (row state).1 = some (row state).2 ∧
        (row state).1.startsWith (Key.nodeStatesOfRun workflow id) = true := by
    refine ⟨?_, Key.nodeState_startsWith_iff.mpr ⟨rfl, rfl⟩⟩
    rw [hlast, hstate, Option.map_some]
  obtain ⟨listed, hlisted, hsorted, hmem⟩ := contents.exists_listed hrows howned
    fun first second _ _ hsame ↦ (ofRecord_inj_of_decode hdecode).mp (congrArg Prod.snd hsame)
  have hdecoded : Runs.decodeAll (contents.rowsUnder (Key.nodeStatesOfRun workflow id)) =
      listed := by
    rw [rowsUnder, hlisted, Runs.decodeAll, List.filterMap_map]
    refine (List.filterMap_congr fun state _ ↦ ?_).trans List.filterMap_some
    rw [Function.comp_apply, hdecode]
    rfl
  rw [hdecoded]
  refine ⟨hsorted.imp fun {first second} hlt ↦ ?_, hmem⟩
  rwa [Key.compare_nodeState] at hlt

end Contents.Posted

/-! ### Calls -/

namespace Operation

/-- The families that an operation may write to unless it goes through a scope. -/
def Writes (operation : Operation) (family : Family) : Prop :=
  match operation with
  | putToken .. => family = .workflowToken
  | putNodeState .. => family = .nodeState
  | summarize .. => family = .workflowRun
  | _ => family = .run ∨ family = .runByStatus

theorem plain_writes {operation : Operation} (hkeeps : ¬ operation.IsRemoval) :
    operation.program.Plain False fun key ↦ operation.Writes key.family := by
  cases hamended : operation.amended? with
  | some run =>
    obtain ⟨_, script, reply, hprogram, hamendment⟩ := exists_amendment hamended
    rw [hprogram]
    refine (hamendment.plain.mono id fun key hkey ↦ ?_).map reply
    cases operation with
    | suspend | resume | stop | compareAndSet => exact hkey
    | _ => cases hamended
  | none =>
  cases operation with
  | start request => exact (Runs.plain_start request).map _
  | suspend | resume | stop | compareAndSet => cases hamended
  | putToken workflow run token =>
    have hfamily : (putToken workflow run token).Writes (Key.workflowToken workflow run).family :=
      rfl
    exact ((Runs.plain_require workflow run).bind fun _ ↦ plain_write hfamily _).map _
  | putNodeState workflow run state =>
    have hfamily : (putNodeState workflow run state).Writes
        (Key.nodeState workflow run state.node).family := rfl
    exact ((Runs.plain_require workflow run).bind fun _ ↦ plain_write hfamily _).map _
  | summarize workflow run =>
    refine ((Summaries.plain_record workflow run).mono id fun key hkey ↦ ?_).map _
    obtain ⟨other, rfl⟩ := hkey
    rfl
  | removeRuns | removeSummaries => exact absurd trivial hkeeps

end Operation

/-- Calls that change no key leave contents as they are. -/
theorem effectOf_eq_self {calls : List Call} (hcalls : ∀ key, ¬ Changed calls key)
    (contents : Contents) : effectOf calls contents = contents :=
  SortedMap.ext_get? fun key ↦ get?_effectOf (hcalls key) contents

/-- A write for a run that must exist is made, or fails and changes nothing. -/
theorem Runs.leads_require_write {program : ProgramId} {id : RunId} {key : Key} {value : Value}
    {calls : List Call} {outcome : Except Failure Unit}
    (hleads : (require program id >>= fun _ ↦ Script.write key value).Leads calls
      (.finish outcome)) :
    (outcome = .ok () ∧ ∀ contents, effectOf calls contents = contents.insert key value) ∨
      (∃ failure, outcome = .error failure) ∧
        ∀ contents, effectOf calls contents = contents := by
  obtain ⟨first, required, rest, rfl, hrequire, hrest⟩ := leads_followedBy hleads
  have hfirst : ∀ contents, effectOf first contents = contents :=
    effectOf_eq_self fun key ↦ (@plain_require False (fun _ ↦ False) program id).not_changed
      hrequire not_false
  cases required with
  | error failure =>
    obtain ⟨rfl, rfl⟩ := leads_finish hrest
    refine Or.inr ⟨⟨failure, rfl⟩, ?_⟩
    rwa [List.append_nil]
  | ok record =>
    cases hrest with
    | put hdone =>
      obtain ⟨rfl, rfl⟩ := leads_finish hdone
      refine Or.inl ⟨rfl, fun contents ↦ ?_⟩
      rw [effectOf_append, hfirst]
      rfl
    | @putRefused _ _ _ failure _ _ hdone =>
      obtain ⟨rfl, rfl⟩ := leads_finish hdone
      refine Or.inr ⟨⟨failure, rfl⟩, fun contents ↦ ?_⟩
      rw [effectOf_append, hfirst]
      rfl

namespace Script

/-- A script with another wording of its result makes the same calls. -/
theorem leads_map {script : Script α} {next : α → β} {calls : List Call}
    {outcome : Except Failure β} (hleads : (next <$> script).Leads calls (.finish outcome)) :
    ∃ between, script.Leads calls (.finish between) ∧ outcome = between.map next := by
  obtain ⟨first, between, rest, rfl, hfirst, hrest⟩ := leads_followedBy hleads
  refine ⟨between, ?_⟩
  cases between with
  | ok result =>
    obtain ⟨rfl, rfl⟩ := leads_finish hrest
    rw [List.append_nil]
    exact ⟨hfirst, rfl⟩
  | error failure =>
    obtain ⟨rfl, rfl⟩ := leads_finish hrest
    rw [List.append_nil]
    exact ⟨hfirst, rfl⟩

/-- An outcome that is told comes from calls of its script. -/
theorem leads_attempt {script : Script α} {tell : Except Failure α → β} {calls : List Call}
    {answer : β} (hleads : (tell <$> script.attempt).Leads calls (.finish (.ok answer))) :
    ∃ outcome, script.Leads calls (.finish outcome) ∧ answer = tell outcome := by
  obtain ⟨told, htold, hanswer⟩ := leads_map hleads
  obtain ⟨first, outcome, rest, rfl, hfirst, hrest⟩ := leads_followedBy htold
  obtain ⟨rfl, rfl⟩ := leads_finish hrest
  rw [List.append_nil]
  exact ⟨outcome, hfirst, Except.ok.inj hanswer⟩

end Script

/-! ### Visits -/

namespace Progress

/-- What a transaction asks for: an operation that does not go through a scope, or the states of the
nodes of a workflow run. -/
inductive Request where
  | operate (operation : Operation) (hkeeps : ¬ operation.IsRemoval)
  | list (workflow : ProgramId) (id : RunId)

/-- What a request is answered; one that fails does not end the transaction. -/
inductive Answer where
  | replied (outcome : Except Failure Reply)
  | listed (outcome : Except Failure (List NodeState))

namespace Request

/-- The script of a request. -/
def script : Request → Script Answer
  | operate operation _ => Answer.replied <$> operation.program.attempt
  | list workflow id => Answer.listed <$> (nodeStates workflow id).attempt

/-- What a request has written for a node when it is answered. -/
def posts : Request → Answer → List NodePost
  | operate (.putNodeState workflow id state) _, .replied (.ok _) => [⟨workflow, id, state⟩]
  | _, _ => []

end Request

/-- Requests and their answers, one after the other. -/
abbrev Trace := List (Request × Answer)

/-- What the requests of a trace have written for nodes. -/
def posted (trace : Trace) : List NodePost := trace.flatMap fun asked ↦ asked.1.posts asked.2

/-- What is done in one transaction: requests, each chosen by the answers so far, and in the end a
commit or a failure. -/
inductive Visit where
  | leave (outcome : Except Failure Unit)
  | ask (request : Request) (next : Answer → Visit)

/-- The script of a visit gives its trace. -/
def Visit.script : Visit → Script Trace
  | leave outcome => .finish (outcome.map fun _ ↦ [])
  | ask request next => do
    let answer ← request.script
    let later ← (next answer).script
    return (request, answer) :: later

variable {contents : Contents} {posts : List NodePost} {calls : List Call}

/-- What an operation makes of the keys of node states is what it posts when it succeeds. -/
theorem get?_effectOf_operation {operation : Operation} (hkeeps : ¬ operation.IsRemoval)
    {outcome : Except Failure Reply} (hleads : operation.program.Leads calls (.finish outcome))
    (contents : Contents) {key : Key} (hfamily : key.family = .nodeState) :
    (effectOf calls contents).get? key =
      ((NodePost.lastUnder? ((Request.operate operation hkeeps).posts (.replied outcome)) key).map
        Value.ofRecord).or (contents.get? key) := by
  by_cases hput : ∃ workflow id state, operation = .putNodeState workflow id state
  · obtain ⟨workflow, id, state, rfl⟩ := hput
    obtain ⟨written, hwritten, rfl⟩ := leads_map hleads
    rcases Runs.leads_require_write hwritten with ⟨rfl, heffect⟩ | ⟨⟨failure, rfl⟩, heffect⟩
    · rw [heffect, Contents.get?_insert]
      by_cases hkey : key = Key.nodeState workflow id state.node
      · subst hkey
        simp [Request.posts, Except.map, NodePost.lastUnder?, NodePost.key]
      · simp [Request.posts, Except.map, NodePost.lastUnder?, NodePost.key, hkey, Ne.symm hkey]
    · rw [heffect]
      rfl
  · have hposts : (Request.operate operation hkeeps).posts (.replied outcome) = [] := by
      cases operation with
      | putNodeState workflow id state => exact absurd ⟨workflow, id, state, rfl⟩ hput
      | _ => rfl
    have hother : ¬ operation.Writes key.family := by
      rw [hfamily]
      cases operation with
      | putNodeState workflow id state => exact absurd ⟨workflow, id, state, rfl⟩ hput
      | removeRuns | removeSummaries => exact absurd trivial hkeeps
      | _ => simp [Operation.Writes]
    rw [hposts, RunLedger.get?_effectOf ((Operation.plain_writes hkeeps).not_changed hleads hother)]
    rfl

/-- What a request makes of the keys of node states is what it has posted. -/
theorem Request.get?_effectOf {request : Request} {answer : Answer}
    (hleads : request.script.Leads calls (.finish (.ok answer))) (contents : Contents) {key : Key}
    (hfamily : key.family = .nodeState) :
    (effectOf calls contents).get? key =
      ((NodePost.lastUnder? (request.posts answer) key).map Value.ofRecord).or
        (contents.get? key) := by
  cases request with
  | operate operation hkeeps =>
    obtain ⟨outcome, hcalls, rfl⟩ := leads_attempt hleads
    exact get?_effectOf_operation hkeeps hcalls contents hfamily
  | list workflow id =>
    obtain ⟨outcome, hcalls, rfl⟩ := leads_attempt hleads
    have hplain : (nodeStates workflow id).Plain True fun _ ↦ False :=
      (plain_readStem trivial _).bind fun _ ↦ plain_pure _
    exact RunLedger.get?_effectOf (hplain.not_changed hcalls not_false) contents

theorem Request.posted_effectOf {request : Request} {answer : Answer}
    (hleads : request.script.Leads calls (.finish (.ok answer)))
    (hposted : contents.Posted posts) :
    (effectOf calls contents).Posted (posts ++ request.posts answer) := by
  intro key hfamily
  rw [Request.get?_effectOf hleads contents hfamily, hposted key hfamily,
    NodePost.lastUnder?_append, Option.map_or]

/-- A visit that comes to an end has posted what its requests have. -/
theorem Visit.posted_effectOf {visit : Visit} {trace : Trace}
    (hleads : visit.script.Leads calls (.finish (.ok trace))) (hposted : contents.Posted posts) :
    (effectOf calls contents).Posted (posts ++ posted trace) := by
  induction visit generalizing contents posts calls trace with
  | leave outcome =>
    obtain ⟨rfl, htrace⟩ := leads_finish hleads
    cases outcome with
    | error failure => cases htrace
    | ok _ =>
      obtain rfl := Except.ok.inj htrace
      rw [posted, List.flatMap_nil, List.append_nil]
      exact hposted
  | ask request next ih =>
    obtain ⟨first, answer, rest, rfl, hfirst, hrest⟩ := leads_bind hleads
    obtain ⟨later, hlater, htrace⟩ := leads_map hrest
    cases later with
    | error failure => cases htrace
    | ok later =>
      obtain rfl := Except.ok.inj htrace
      rw [effectOf_append, posted, List.flatMap_cons, ← List.append_assoc]
      exact ih answer hlater (request.posted_effectOf hfirst hposted)

/-! ### Answers -/

/-- States are listed as they were posted, unless a read that was planned to fail has failed. -/
def Request.Tells (failsRead : Nat → Bool) (posts : List NodePost) : Request → Answer → Prop
  | list workflow id, .listed outcome =>
    (∃ states, outcome = .ok states ∧ NodePost.Lists posts workflow id states) ∨
      (∃ cause, outcome = .error (.storeUnavailable cause)) ∧ ∃ serial, failsRead serial = true
  | list .., .replied _ => False
  | operate .., _ => True

/-- Each request of a trace was answered as things had been posted before and by the requests before
it. -/
def Told (failsRead : Nat → Bool) (posts : List NodePost) (trace : Trace) : Prop :=
  ∀ earlier request answer later, trace = earlier ++ (request, answer) :: later →
    request.Tells failsRead (posts ++ posted earlier) answer

theorem told_cons {failsRead : Nat → Bool} {request : Request} {answer : Answer} {trace : Trace}
    (hfirst : request.Tells failsRead posts answer)
    (hrest : Told failsRead (posts ++ request.posts answer) trace) :
    Told failsRead posts ((request, answer) :: trace) := by
  intro earlier other reply later htrace
  cases earlier with
  | nil =>
    obtain ⟨hhead, -⟩ := List.cons.inj htrace
    obtain ⟨rfl, rfl⟩ := Prod.mk.inj hhead
    rw [posted, List.flatMap_nil, List.append_nil]
    exact hfirst
  | cons head tail =>
    obtain ⟨rfl, rfl⟩ := List.cons.inj htrace
    rw [posted, List.flatMap_cons, ← List.append_assoc]
    exact hrest tail other reply later rfl

section

variable {failsRead : Nat → Bool}

/-- The node states of a run are listed as they were posted before. -/
theorem Request.tells_of_leads {request : Request} {answer : Answer}
    (hleads : request.script.Leads calls (.finish (.ok answer)))
    (hposted : contents.Posted posts) (htruthful : Truthful contents calls)
    (hrefused : ∀ failure, Call.refused failure ∈ calls →
      (∃ cause, failure = .storeUnavailable cause) ∧ ∃ serial, failsRead serial = true) :
    request.Tells failsRead posts answer := by
  cases request with
  | operate operation hkeeps =>
    obtain ⟨outcome, -, rfl⟩ := leads_attempt hleads
    trivial
  | list workflow id =>
    obtain ⟨outcome, hcalls, rfl⟩ := leads_attempt hleads
    cases hcalls with
    | scannedStem hrest =>
      obtain ⟨rfl, rfl⟩ := leads_finish hrest
      obtain ⟨rfl, -⟩ := htruthful
      exact Or.inl ⟨_, rfl, hposted.lists workflow id⟩
    | scanStemRefused hrest =>
      obtain ⟨rfl, rfl⟩ := leads_finish hrest
      obtain ⟨⟨cause, rfl⟩, hfails⟩ := hrefused _ List.mem_cons_self
      exact Or.inr ⟨⟨cause, rfl⟩, hfails⟩

theorem Visit.told_of_leads {visit : Visit} {trace : Trace}
    (hleads : visit.script.Leads calls (.finish (.ok trace))) (hposted : contents.Posted posts)
    (htruthful : Truthful contents calls)
    (hrefused : ∀ failure, Call.refused failure ∈ calls →
      (∃ cause, failure = .storeUnavailable cause) ∧ ∃ serial, failsRead serial = true) :
    Told failsRead posts trace := by
  induction visit generalizing contents posts calls trace with
  | leave outcome =>
    obtain ⟨-, htrace⟩ := leads_finish hleads
    cases outcome with
    | error failure => cases htrace
    | ok _ =>
      obtain rfl := Except.ok.inj htrace
      intro earlier request answer later hsplit
      cases earlier <;> cases hsplit
  | ask request next ih =>
    obtain ⟨first, answer, rest, rfl, hfirst, hrest⟩ := leads_bind hleads
    obtain ⟨later, hlater, htrace⟩ := leads_map hrest
    cases later with
    | error failure => cases htrace
    | ok later =>
      obtain rfl := Except.ok.inj htrace
      obtain ⟨hbefore, hbehind⟩ := truthful_append.mp htruthful
      refine told_cons (request.tells_of_leads hfirst hposted hbefore fun failure hmem ↦
        hrefused failure (List.mem_append_left rest hmem)) ?_
      exact ih answer hlater (request.posted_effectOf hfirst hposted) hbehind fun failure hmem ↦
        hrefused failure (List.mem_append_right first hmem)

/-- A visit on posted contents is answered by them. -/
theorem Visit.told_of_course {visit : Visit} {trace : Trace}
    (hcourse : visit.script.Course contents failsRead calls (.finish (.ok trace)))
    (hposted : contents.Posted posts) : Told failsRead posts trace :=
  visit.told_of_leads hcourse.leads hposted hcourse.truthful hcourse.refused

end

/-! ### Histories -/

/-- What the first commits of a history have written for nodes. -/
def postedBy (history : List (Commit Visit Trace)) (count : Nat) : List NodePost :=
  (history.take count).flatMap fun commit ↦ posted commit.result

theorem postedBy_succ {history : List (Commit Visit Trace)} {place : Nat}
    {commit : Commit Visit Trace} (hcommit : history[place]? = some commit) :
    postedBy history (place + 1) = postedBy history place ++ posted commit.result := by
  rw [postedBy, List.take_add_one, hcommit, List.flatMap_append]
  simp [postedBy]

end Progress

open Progress

variable {failsRead failsWrite : Nat → Bool}

/-- What commits make holds what they have posted. -/
theorem System.Sound.posted {system : System Visit Trace}
    (hsound : system.Sound Visit.script failsRead failsWrite) {count : Nat}
    (hcount : count ≤ system.history.length) :
    (contentsAfter system.history count).Posted (postedBy system.history count) := by
  induction count with
  | zero => exact Contents.Posted.empty
  | succ place ih =>
    have hcommit : system.history[place]? = some system.history[place] :=
      List.getElem?_eq_getElem hcount
    have hcourse := (hsound.commits place _ hcommit).course
    rw [contentsAfter_succ hcommit, postedBy_succ hcommit]
    exact Visit.posted_effectOf hcourse.leads (ih (Nat.le_of_lt hcount))

/-- A visit that has written for nodes and is told that it has succeeded has been committed. -/
theorem Ending.Sound.exists_commit {history : List (Commit Visit Trace)}
    {ending : Ending Visit Trace}
    (hending : ending.Sound Visit.script failsRead failsWrite history) {trace : Trace}
    (htrace : ending.outcome = .ok trace) (hposts : posted trace ≠ []) :
    ∃ place commit, history[place]? = some commit ∧ commit.operation = ending.operation ∧
      commit.result = trace ∧ place + 1 = ending.commits := by
  obtain ⟨-, calls, outcome, hcourse, hfollows⟩ := hending
  cases hfollows with
  | committed houtcome hplace hcommit =>
    rw [htrace] at houtcome
    exact ⟨_, _, hcommit, rfl, (Except.ok.inj houtcome).symm, hplace⟩
  | readOnly houtcome hcalls =>
    rw [htrace] at houtcome
    obtain rfl := Except.ok.inj houtcome
    have hempty := Visit.posted_effectOf hcourse.leads Contents.Posted.empty
    rw [hcalls, List.nil_append] at hempty
    exact absurd hempty.eq_nil hposts
  | failed houtcome | conflicts houtcome | outage houtcome =>
    rw [htrace] at houtcome
    cases houtcome

/-- In every interleaving of transactions that go through no scope, whatever they ask for and decide
by the answers, and whatever fails: the node states of each workflow run are listed as a map, with
one entry for each node for which a state has been committed, the last one, in ascending byte order
of the nodes, and nothing that was written for another run or program. A transaction finds them as
the commits up to its snapshot have left them and it has changed them itself, unless a read fails,
and one that has written a state and is told that it has succeeded is among the commits. -/
theorem nodeStates_last_posted (failsRead failsWrite : Nat → Bool) (config : Config)
    (events : List (Event Visit)) :
    let system := (System.initial failsRead failsWrite config).run Visit.script events
    let live := system.database.substrate.store.live
    (∀ workflow id, ∃ states, (nodeStates workflow id).eval live = (.ok states, live) ∧
      NodePost.Lists (postedBy system.history system.history.length) workflow id states) ∧
    (∀ session ∈ system.sessions, session.stage = .calling →
      ∀ trace, session.rest = .finish (.ok trace) →
        Told failsRead (postedBy system.history session.snapshot) trace) ∧
    ∀ ending ∈ system.endings, ∀ trace, ending.outcome = .ok trace →
      Told failsRead (postedBy system.history ending.snapshot) trace ∧
      (posted trace ≠ [] → ∃ place commit, system.history[place]? = some commit ∧
        commit.operation = ending.operation ∧ commit.result = trace ∧
        place + 1 = ending.commits) := by
  intro system live
  have hsound : system.Sound Visit.script failsRead failsWrite :=
    System.sound_run Visit.script failsRead failsWrite config events
  refine ⟨fun workflow id ↦ ?_, fun session hsession hstage trace hrest ↦ ?_,
    fun ending hending trace htrace ↦ ⟨?_, (hsound.endings ending hending).exists_commit htrace⟩⟩
  · have hposted := hsound.posted (Nat.le_refl _)
    rw [← hsound.live] at hposted
    exact ⟨_, rfl, hposted.lists workflow id⟩
  · have hopen := hsound.sessions session hsession (by rw [hstage]; decide)
    have hcourse := hopen.course hstage
    rw [hrest] at hcourse
    exact Visit.told_of_course hcourse (hsound.posted hopen.bounded)
  · obtain ⟨⟨hsnapshot, hcommits⟩, calls, outcome, hcourse, hfollows⟩ :=
      hsound.endings ending hending
    have hdone : outcome = .ok trace := by
      cases hfollows with
      | readOnly houtcome | committed houtcome => exact houtcome.symm.trans htrace
      | failed houtcome | conflicts houtcome | outage houtcome =>
        rw [htrace] at houtcome
        cases houtcome
    rw [hdone] at hcourse
    exact Visit.told_of_course hcourse (hsound.posted (Nat.le_trans hsnapshot hcommits))

end RunLedger

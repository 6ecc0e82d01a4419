import Zester.Update.Driver

/-! Which nodes the driver of a rollout switches to the new version. -/
namespace Zester.Update
open Driver List

/-- A request to the node was answered in such a way. -/
def heard (subject : String) (good : UpdateCommand → UpdateResponse → Prop) :
    Knowledge RolloutOp where
  holds history := ∃ cmd resp, .answered (.request subject cmd) (.ok resp) ∈ history ∧ good cmd resp
  lasts := by
    rintro event history ⟨cmd, resp, member, fits⟩
    exact ⟨cmd, resp, mem_cons_of_mem _ member, fits⟩

/-- The node carried out a command for the version. -/
def succeeded (command : CommandName) (version subject : String) : Knowledge RolloutOp :=
  heard subject fun cmd resp =>
    cmd.command = command ∧ cmd.version = version ∧ resp.status ≠ "error"

/-- A probe found the node in the state, with the version. -/
def reported (state : HandlerState) (version subject : String) : Knowledge RolloutOp :=
  heard subject fun cmd resp => cmd.command = .status ∧ resp.status ≠ "error" ∧
    resp.state = some state ∧ sameVersion resp.version version = true

/-- A node is switched to a binary that it was prepared for, and that binary is confirmed once it
was switched. -/
def Permitted (version : String) (history : List (Happening RolloutOp)) :
    {ρ : Type} → RolloutOp ρ → Prop
  | _, .request subject cmd =>
    (cmd.command = .apply →
      (succeeded .prepare version subject).holds history ∨
        (reported .staged version subject).holds history) ∧
    (cmd.command = .confirm →
      (succeeded .apply version subject).holds history ∨
        (reported .soaking version subject).holds history)
  | _, _ => True

/-- The rollout of another version. -/
def Rollout.toVersion (r : Rollout) (version : String) : Rollout :=
  { r with config := { r.config with version := version } }

/-- Whatever the version and whatever the nodes answer, each command comes when it is permitted. -/
def SwitchesPrepared (driverID : String) (r : Rollout) : Prop :=
  ∀ version site, Site.Reaches (.start (executeRollout driverID (r.toVersion version))) site →
    Orderly (Permitted version) site.history

/-- The record of the same rollout, with as many failures. -/
def Continues (r r' : Rollout) : Prop := r'.config = r.config ∧ r'.failedCount = r.failedCount

theorem Continues.trans (first : Continues r₁ r₂) (second : Continues r₂ r₃) : Continues r₁ r₃ :=
    ⟨second.1.trans first.1, second.2.trans first.2⟩

/-- From there on, every command is permitted. -/
abbrev Proceeds {α : Type} (version : String) (k : Knowledge RolloutOp)
    (due : List (NodeMessage → Knowledge RolloutOp)) (p : Drive α) : Prop :=
  Heeds (Permitted version) (fun _ _ _ => True) k due p

theorem trySave_heeds (r : Rollout) : Heeds (Permitted version) (fun attempt _ due' => due' = due ∧
      match attempt with | .ended r' _ | .again r' _ => Continues r r') k due
        (trySave driverID r) := by
  refine .ask_bind (fun _ _ => trivial) fun now => .ask_bind (fun _ _ => trivial) fun saved => ?_
  cases saved with
  | ok revision => exact .pure ⟨rfl, rfl, rfl⟩
  | error text =>
    refine .ask_bind (fun _ _ => trivial) fun found => ?_
    cases found with
    | error _ => exact .pure ⟨rfl, rfl, rfl⟩
    | ok persisted =>
      dsimp only
      split
      · exact .pure ⟨rfl, rfl, rfl⟩
      split <;> exact .pure ⟨rfl, rfl, rfl⟩

theorem backoff_heeds (lastErr : Option String) :
    Heeds (Permitted version) (fun _ _ due' => due' = due) k due (backoff lastErr) := by
  unfold backoff
  split
  · exact .ask_bind (fun _ _ => trivial) fun _ => .pure rfl
  · exact .pure rfl

theorem saveStateFrom_heeds (lastErr : Option String) (r : Rollout) (attempts : Nat) :
    Heeds (Permitted version) (fun res _ due' => Continues r res.1 ∧ due' = due) k due
      (saveStateFrom driverID lastErr r attempts) := by
  induction attempts generalizing lastErr r k with
  | zero => exact .pure ⟨⟨rfl, rfl⟩, rfl⟩
  | succ attempts ih =>
    refine (backoff_heeds lastErr).bind fun woken k' due' _ same => ?_
    obtain rfl := same
    cases woken with
    | cancelled text => exact .pure ⟨⟨rfl, rfl⟩, rfl⟩
    | aborted | elapsed | poll =>
      refine (trySave_heeds r).bind fun attempt k' due' _ tried => ?_
      obtain ⟨rfl, continues⟩ := tried
      cases attempt with
      | ended r' failure => exact .pure ⟨continues, rfl⟩
      | again r' text =>
        exact (ih (some text) r').imp fun res _ _ _ later => ⟨continues.trans later.1, later.2⟩

theorem saveStateLocked_heeds (r : Rollout) :
    Heeds (Permitted version) (fun res _ due' => Continues r res.1 ∧ due' = due) k due
      (saveStateLocked driverID r) :=
  saveStateFrom_heeds none { r with driverID := driverID } rolloutSaveRetries

theorem permitted_other (other : cmd.command ≠ .apply ∧ cmd.command ≠ .confirm) :
    Permitted version history (.request subject cmd) :=
  ⟨fun applies => absurd applies other.1, fun confirms => absurd confirms other.2⟩

theorem revertHeld_heeds (config : RolloutConfig) (nodeID : String) (probe : UpdateResponse)
    (held : String) :
    (revertHeld config nodeID probe held).Heeds (Permitted version) (fun _ => .nothing) k := by
  unfold revertHeld
  split
  · exact fun _ _ => trivial
  · refine .ask_bind (fun _ _ => permitted_other (by simp)) fun reply => ?_
    cases answered "" reply <;> exact fun _ _ => trivial

theorem revertNode_heeds (config : RolloutConfig) (nodeID : String) :
    (revertNode config nodeID).Heeds (Permitted version) (fun _ => .nothing) k := by
  refine .ask_bind (fun _ _ => permitted_other (by simp)) fun reply => ?_
  cases answered "" reply with
  | error text => exact fun _ _ => trivial
  | ok probe =>
    dsimp only
    split
    iterate 4 exact revertHeld_heeds config nodeID probe _
    all_goals exact fun _ _ => trivial

theorem receiveAll_heeds (promise : NodeMessage → Knowledge RolloutOp) (n : Nat)
    (uniform : ∀ p ∈ due, p = promise) : Heeds (Permitted version)
      (fun messages k' _ => ∀ message ∈ messages, (promise message).Within k') k due
      (receiveAll n) := by
  induction n generalizing k due with
  | zero => exact fun _ member => (by cases member)
  | succ n ih =>
    refine .receive_bind fun p rest split first => ?_
    have all : ∀ q ∈ p :: rest, q = promise := fun q member => uniform q (split.mem_iff.mpr member)
    obtain rfl : p = promise := all p mem_cons_self
    refine (ih fun q member => all q (mem_cons_of_mem _ member)).bind
      fun later k' due' within each => ?_
    exact forall_mem_cons.mpr ⟨fun history holds => (within history holds).2, each⟩

theorem withResult_continues (r : Rollout) (nodeID : String) (change : NodeResult → NodeResult) :
    Continues r (r.withResult nodeID change) := by
  unfold Rollout.withResult
  split <;> exact ⟨rfl, rfl⟩

theorem revertBatch_heeds (r : Rollout) : Proceeds version k due (revertBatch r) := by
  unfold revertBatch
  dsimp only
  split
  · exact .pure trivial
  · refine .gather_bind (fun _ _ => .nothing) (fun nodeID _ => revertNode_heeds r.config nodeID) ?_
    refine .ask_bind (fun _ _ => trivial) fun now => ?_
    exact (receiveAll_heeds (fun _ => .nothing) _ (by simp)).bind fun _ _ _ _ _ => .pure trivial

theorem finishAborted_heeds (r : Rollout) : Proceeds version k due (finishAborted driverID r) := by
  refine (revertBatch_heeds r).bind fun r _ _ _ _ =>
    (saveStateLocked_heeds _).bind fun res _ _ _ _ => ?_
  exact .ask_bind (fun _ _ => trivial) fun now => (saveStateLocked_heeds _).bind fun _ _ _ _ _ =>
    .pure trivial

theorem handlePersistError_heeds (r : Rollout) (e : SaveError) :
    Proceeds version k due (handlePersistError driverID r e) := by
  cases e with
  | abortedExternally => exact (revertBatch_heeds r).bind fun _ _ _ _ _ => .pure trivial
  | superseded => exact .pure trivial
  | failed text =>
    refine .ask_bind (fun _ _ => trivial) fun cancelled => ?_
    cases cancelled with
    | true => exact .pure trivial
    | false =>
      exact .ask_bind (fun _ _ => trivial) fun now =>
        (saveStateLocked_heeds _).bind fun _ _ _ _ _ => .pure trivial

theorem isAbortedInKV_heeds (id : String) : Proceeds version k due (isAbortedInKV id) := by
  refine .ask_bind (fun _ _ => trivial) fun found => ?_
  cases found <;> exact .pure trivial

theorem waitOrAbort_heeds (r : Rollout) (duration : Int) :
    Proceeds version k due (waitOrAbort driverID r duration) := by
  have waits : ∀ polls k due, Proceeds version k due (waitFrom driverID r duration polls) := by
    intro polls
    induction polls with
    | zero => exact fun _ _ => .pure trivial
    | succ polls ih =>
      refine fun _ _ => .ask_bind (fun _ _ => trivial) fun woken => ?_
      cases woken with
      | aborted => exact (finishAborted_heeds r).bind fun _ _ _ _ _ => .pure trivial
      | elapsed | cancelled text => exact .pure trivial
      | poll =>
        refine (isAbortedInKV_heeds r.id).bind fun gone k' due' _ _ => ?_
        cases gone with
        | true => exact (revertBatch_heeds r).bind fun _ _ _ _ _ => .pure trivial
        | false => exact ih k' due'
  exact waits _ _ _

/-- What the result of a command for a node stands for. -/
def commandPromise (cmd : CommandName) (version nodeID : String) (message : NodeMessage) :
    Knowledge RolloutOp :=
  (Knowledge.fact (message.nodeID = nodeID)).and
    (.when (message.err = none) (succeeded cmd version (updateCmdSubject nodeID)))

/-- What the result of a probe stands for. -/
def probePromise (version : String) (message : NodeMessage) : Knowledge RolloutOp :=
  (Knowledge.when (message.action = .apply)
    (reported .staged version (updateCmdSubject message.nodeID))).and
    (.when (message.action = .confirm)
      (reported .soaking version (updateCmdSubject message.nodeID)))

def MaySend (version : String) (cmd : CommandName) (k : Knowledge RolloutOp)
    (nodeID : String) : Prop :=
  ∀ history, k.holds history → ∀ sent : UpdateCommand, sent.command = cmd →
    Permitted version history (.request (updateCmdSubject nodeID) sent)

theorem commandNode_heeds (may : MaySend version cmd k nodeID) :
    (commandNode config nodeID cmd).Heeds (Permitted version)
    (commandPromise cmd config.version nodeID) k := by
  have refused : ∀ (k : Knowledge RolloutOp) (text : String), Script.Heeds (Permitted version)
      (commandPromise cmd config.version nodeID) k
          (pure { nodeID := nodeID, err := some text } : Errand) :=
    fun k text history _ => ⟨rfl, fun none => by cases none⟩
  refine .ask_bind (fun _ _ => trivial) fun aborted => ?_
  cases aborted with
  | true => exact refused _ _
  | false =>
    refine .ask_bind (fun _ _ => trivial) fun report =>
      .ask_bind (fun _ _ => trivial) fun found => ?_
    cases found with
    | error text => exact refused _ _
    | ok m =>
      refine .ask_bind (fun history known => may history known.1.1.1 _ rfl) fun reply => ?_
      cases reply with
      | error text => exact refused _ _
      | ok resp =>
        dsimp only
        split
        · exact refused _ _
        · rename_i fine
          intro history known
          exact ⟨rfl, fun _ => ⟨_, resp, known.2, rfl, rfl, fine⟩⟩

theorem idle_heeds (other : message.action = .skip ∨ message.action = .prepare) :
    Script.Heeds (Permitted version) (probePromise version) k (pure message : Errand) :=
  fun _ _ =>
    ⟨fun applies => by simp [applies] at other, fun confirms => by simp [confirms] at other⟩

theorem resetThenPrepare_heeds (config : RolloutConfig) (nodeID : String) (probe : UpdateResponse)
    (state : HandlerState) (note : String) :
    (resetThenPrepare config nodeID probe state note).Heeds (Permitted version)
    (probePromise version) k := by
  refine .ask_bind (fun _ _ => permitted_other (by simp)) fun reply => ?_
  simp only [Script.pure_eq]
  split <;> exact idle_heeds (by simp)

theorem answered_ok (ok : answered mark reply = .ok resp) :
    reply = .ok resp ∧ resp.status ≠ "error" := by
  cases reply with
  | error text => cases ok
  | ok resp' =>
    simp only [answered] at ok
    split at ok
    · cases ok
    · rename_i fine
      cases ok
      exact ⟨rfl, fine⟩

theorem decideProbe_heeds
    (report : ∀ state, resp.state = some state → sameVersion resp.version config.version = true →
      (reported state config.version (updateCmdSubject nodeID)).Within k)
    (repeated : ∀ k, again.Heeds (Permitted config.version) (probePromise config.version) k) :
    (decideProbe config nodeID resp again).Heeds (Permitted config.version)
    (probePromise config.version) k := by
  have busy : Script.Heeds (Permitted config.version) (probePromise config.version) k
      (probeLater nodeID again) := by
    refine .ask_bind (fun _ _ => trivial) fun woken => ?_
    cases woken with
    | aborted | cancelled text => exact idle_heeds (by simp)
    | elapsed | poll => exact repeated _
  unfold decideProbe
  generalize sameVersion resp.runningVersion config.version = current
  generalize sameVersion resp.version config.version = holding at report ⊢
  cases state : resp.state with
  | none => exact idle_heeds (by simp)
  | some held =>
    cases held with
    | idle | confirmed => cases current <;> exact idle_heeds (by simp)
    | staged =>
      cases holding with
      | true =>
        exact fun history known =>
          ⟨fun _ => report _ state rfl history known, fun confirms => by cases confirms⟩
      | false => exact resetThenPrepare_heeds config nodeID resp .staged _
    | soaking =>
      cases holding with
      | true =>
        exact fun history known =>
          ⟨fun applies => (by cases applies), fun _ => report _ state rfl history known⟩
      | false => exact resetThenPrepare_heeds config nodeID resp .soaking _
    | preparing | applying | rollingBack => exact busy

theorem probeNode_heeds (config : RolloutConfig) (nodeID : String) (attempts : Nat)
    (k : Knowledge RolloutOp) :
    (probeNode config nodeID attempts).Heeds (Permitted config.version)
    (probePromise config.version) k := by
  induction attempts generalizing k with
  | zero => exact idle_heeds (by simp)
  | succ attempts ih =>
    refine .ask_bind (fun _ _ => trivial) fun aborted => ?_
    cases aborted with
    | true => exact idle_heeds (by simp)
    | false =>
      refine .ask_bind (fun _ _ => permitted_other (by simp)) fun reply => ?_
      cases outcome : answered "status probe: " reply with
      | error text => exact idle_heeds (by simp)
      | ok resp =>
        obtain ⟨rfl, fine⟩ := answered_ok outcome
        refine decideProbe_heeds (fun state found same history known => ?_) ih
        exact ⟨_, resp, known.2, rfl, fine, found, same⟩

/-- The next failure is the last one that the rollout takes. -/
def Tight (r : Rollout) : Prop := r.config.maxFailed ≤ r.failedCount + 1

theorem Tight.continues (tight : Tight r) (continues : Continues r r') : Tight r' := by
  unfold Tight
  rw [continues.1, continues.2]
  exact tight

theorem perm_map_cons {f : σ → τ} {y : τ} {ys : List τ} {xs : List σ}
    (same : (xs.map f).Perm (y :: ys)) :
    ∃ x xs', xs.Perm (x :: xs') ∧ y = f x ∧ (xs'.map f).Perm ys := by
  obtain ⟨x, member, rfl⟩ := mem_map.mp (same.mem_iff.mpr mem_cons_self)
  obtain ⟨before, after, rfl⟩ := append_of_mem member
  refine ⟨x, before ++ after, perm_middle, rfl, ?_⟩
  have front : ((before ++ x :: after).map f).Perm (f x :: (before ++ after).map f) :=
    (@perm_middle _ x before after).map f
  exact (perm_cons (f x)).mp (front.symm.trans same)

/-- A result is recorded; a failure counts. -/
def Records (r : Rollout) (res : NodeMessage) (recorded : Rollout) : Prop :=
  recorded.config = r.config ∧
    recorded.failedCount = r.failedCount + if res.err = none then 0 else 1

theorem recorded_records (r : Rollout) (res : NodeMessage)
    (failed : String → NodeResult → NodeResult) (fine : NodeResult → NodeResult) :
    Records r res (match res.err with
      | some text => { r.withResult res.nodeID (failed text) with failedCount := r.failedCount + 1 }
      | none => r.withResult res.nodeID fine) := by
  have same := withResult_continues r res.nodeID
  unfold Records
  cases res.err with
  | some text => exact ⟨(same _).1, by simp⟩
  | none => exact ⟨(same _).1, by simpa using (same _).2⟩

theorem recordResult_records (success : String) (now : Int) (r : Rollout) (res : NodeMessage) :
    Records r res (recordResult success now r res) := recorded_records ..

theorem recordProbe_records (now : Int) (r : Rollout) (res : NodeMessage) :
    Records r res (recordProbe now r res) :=
  recorded_records ..

theorem Records.continues (records : Records r res recorded) (fine : res.err = none) :
    Continues r recorded :=
  ⟨records.1, by simpa [fine] using records.2⟩

/-- With a tight limit, the loop goes on only after a success. -/
theorem settle_heeds (tight : Tight r) (records : Records r res recorded) :
    Heeds (Permitted version)
      (fun out _ due' => out.2 = .ok → res.err = none ∧ Continues r out.1 ∧ due' = due)
      k due (settle driverID recorded) := by
  refine (saveStateLocked_heeds recorded).bind fun saved k₁ due₁ _ saving => ?_
  obtain ⟨continues, rfl⟩ := saving
  obtain ⟨r', failure⟩ := saved
  cases failure with
  | some e => exact (handlePersistError_heeds r' e).bind fun _ _ _ _ _ stopped => by cases stopped
  | none =>
    refine .pure fun ended => ?_
    split at ended
    · cases ended
    rename_i below
    have fine : res.err = none := by
      by_contra failed
      rw [continues.1, continues.2, records.1, records.2, if_neg failed] at below
      exact below tight
    exact ⟨fine, (records.continues fine).trans continues, rfl⟩

/-- With a tight limit, a phase ends well only if every node succeeded. -/
theorem collectResults_heeds {nodes : List String}
    (tight : Tight r) (length : nodes.length = n)
    (open_ : due.Perm (nodes.map (commandPromise cmd version))) :
    Heeds (Permitted version) (fun res k' _ => res.2 = .ok → Continues r res.1 ∧
        ∀ nodeID ∈ nodes, (succeeded cmd version (updateCmdSubject nodeID)).Within k')
      k due (collectResults driverID success n r) := by
  induction n generalizing nodes r k due with
  | zero =>
    obtain rfl := eq_nil_of_length_eq_zero length
    exact fun _ => ⟨⟨rfl, rfl⟩, by simp⟩
  | succ n ih =>
    refine .receive_bind fun promise rest split message =>
      .ask_bind (fun _ _ => trivial) fun now => ?_
    obtain ⟨nodeID, nodes', whole, rfl, others⟩ := perm_map_cons (open_.symm.trans split)
    refine (settle_heeds tight (recordResult_records success now r message)).bind
      fun out k₁ due₁ within settled => ?_
    obtain ⟨r₁, outcome⟩ := out
    cases outcome with
    | abort | stop => exact fun ended => by cases ended
    | ok =>
      obtain ⟨fine, continues, rfl⟩ := settled rfl
      have fewer : nodes'.length = n := by
        have total := whole.length_eq
        rw [length, length_cons] at total
        exact (Nat.succ.inj total).symm
      refine (ih (tight.continues continues) fewer others.symm).imp
        fun res k' _ more known ended => ?_
      obtain ⟨continues', each⟩ := known ended
      refine ⟨continues.trans continues', fun other member => ?_⟩
      obtain rfl | later := mem_cons.mp (whole.mem_iff.mp member)
      · exact fun history holds => (within history (more history holds)).1.2.2 fine
      · exact each other later

/-- What is known after a phase that ended well. -/
def Carried (version : String) (cmd : CommandName) (nodes : List String)
    (k : Knowledge RolloutOp) : Prop :=
  ∀ nodeID ∈ nodes, (succeeded cmd version (updateCmdSubject nodeID)).Within k

theorem phase_heeds (tight : Tight r)
    (same : r.config.version = version) (may : ∀ nodeID ∈ nodes, MaySend version cmd k nodeID) :
    Heeds (Permitted version)
      (fun res k' _ => ∀ r' ∈ res, Continues r r' ∧ Carried version cmd nodes k')
      k due (phase driverID r nodes cmd success) := by
  unfold phase
  split
  · rename_i none
    subst none
    refine .pure fun r' returned => ?_
    cases returned
    exact ⟨⟨rfl, rfl⟩, by simp [Carried]⟩
  · subst same
    have runs : Heeds (Permitted r.config.version)
        (fun res k' _ => res.2 = .ok → Continues r res.1 ∧
        Carried r.config.version cmd nodes k') k due
            (runBatchCommand driverID r nodes cmd success) := by
      exact .gather_bind (commandPromise cmd r.config.version)
        (fun nodeID member => commandNode_heeds (may nodeID member))
          (collectResults_heeds tight rfl (.refl _))
    refine runs.bind fun res k₁ due₁ _ ended => ?_
    obtain ⟨r₁, outcome⟩ := res
    cases outcome with
    | ok =>
      refine .pure fun r' returned => ?_
      cases returned
      exact ended rfl
    | abort => exact (finishAborted_heeds r₁).bind fun _ _ _ _ _ => .pure (by simp)
    | stop => exact .pure (by simp)

/-- What the plan of a batch stands for. -/
def PlanKnown (version : String) (plan : BatchPlan) (k : Knowledge RolloutOp) : Prop :=
  (∀ nodeID ∈ plan.apply, (reported .staged version (updateCmdSubject nodeID)).Within k) ∧
    ∀ nodeID ∈ plan.confirm, (reported .soaking version (updateCmdSubject nodeID)).Within k

theorem planKnown_add (known : PlanKnown version plan k)
    (promised : (probePromise version res).Within k) : PlanKnown version (plan.add res) k := by
  unfold BatchPlan.add
  split
  · exact known
  cases action : res.action with
  | skip | prepare => exact known
  | apply =>
    refine ⟨fun nodeID member => ?_, known.2⟩
    obtain earlier | rfl := mem_append.mp member |>.imp_right mem_singleton.mp
    · exact known.1 nodeID earlier
    · exact fun history holds => (promised history holds).1 action
  | confirm =>
    refine ⟨known.1, fun nodeID member => ?_⟩
    obtain earlier | rfl := mem_append.mp member |>.imp_right mem_singleton.mp
    · exact known.2 nodeID earlier
    · exact fun history holds => (promised history holds).2 action

/-- With a tight limit, no probe of a batch that goes on has failed. -/
theorem considerProbes_heeds (tight : Tight r) (known : PlanKnown version plan k)
    (promised : ∀ message ∈ messages, (probePromise version message).Within k) :
    Heeds (Permitted version)
      (fun res k' _ => res.2.2 = .ok → Continues r res.1 ∧ PlanKnown version res.2.1 k')
      k due (considerProbes driverID messages r plan) := by
  induction messages generalizing r plan k due with
  | nil => exact fun _ => ⟨⟨rfl, rfl⟩, known⟩
  | cons res rest ih =>
    refine .ask_bind (fun _ _ => trivial) fun now =>
      (settle_heeds tight (recordProbe_records now r res)).bind fun out k₁ due₁ within settled => ?_
    obtain ⟨r₁, outcome⟩ := out
    have kept : k.Within k₁ := within.of_and
    cases outcome with
    | abort | stop => exact fun ended => by cases ended
    | ok =>
      obtain ⟨-, continues, -⟩ := settled rfl
      have known' : PlanKnown version plan k₁ :=
        ⟨fun nodeID member => (known.1 nodeID member).trans kept,
          fun nodeID member => (known.2 nodeID member).trans kept⟩
      have promised' : ∀ message ∈ res :: rest, (probePromise version message).Within k₁ :=
        fun message member => (promised message member).trans kept
      refine (ih (tight.continues continues) (planKnown_add known' (promised' res mem_cons_self))
          fun message member =>
        promised' message (mem_cons_of_mem _ member)).imp fun out k' _ _ later ended => ?_
      exact ⟨continues.trans (later ended).1, (later ended).2⟩

theorem planBatch_heeds (tight : Tight r) (same : r.config.version = version) :
    Heeds (Permitted version)
      (fun res k' _ => res.2.2 = .ok → Continues r res.1 ∧ PlanKnown version res.2.1 k')
      k due (planBatch driverID r batch) := by
  subst same
  refine .gather_bind (fun _ => probePromise r.config.version)
    (fun nodeID _ => probeNode_heeds r.config nodeID probeBusyRetries k) ?_
  refine (receiveAll_heeds (probePromise r.config.version) batch.length (by simp)).bind
    fun messages k₁ due₁ _ promised => ?_
  refine considerProbes_heeds tight ⟨by simp, by simp⟩ fun message member => ?_
  exact promised message (mem_insertionSort _ |>.mp member)

theorem maySend_prepare (nodeID : String) : MaySend version .prepare k nodeID :=
  fun _ _ sent prepares => permitted_other (by simp [prepares])

theorem maySend_apply (ready : (succeeded .prepare version (updateCmdSubject nodeID)).Within k ∨
      (reported .staged version (updateCmdSubject nodeID)).Within k) :
    MaySend version .apply k nodeID := by
  refine fun history holds sent applies => ⟨fun _ => ?_, fun confirms => ?_⟩
  · exact ready.imp (fun within => within history holds) fun within => within history holds
  · cases applies.symm.trans confirms

theorem maySend_confirm (ready : (succeeded .apply version (updateCmdSubject nodeID)).Within k ∨
      (reported .soaking version (updateCmdSubject nodeID)).Within k) :
    MaySend version .confirm k nodeID := by
  refine fun history holds sent confirms => ⟨fun applies => ?_, fun _ => ?_⟩
  · cases confirms.symm.trans applies
  · exact ready.imp (fun within => within history holds) fun within => within history holds

theorem runPlan_heeds (tight : Tight r) (same : r.config.version = version)
    (known : PlanKnown version plan k) :
    Heeds (Permitted version) (fun res _ _ => ∀ r' ∈ res, Continues r r') k due
      (runPlan driverID r plan) := by
  refine (phase_heeds tight same fun nodeID _ => maySend_prepare nodeID).bind
    fun res k₁ due₁ within₁ ended => ?_
  cases res with
  | none => exact .pure (by simp)
  | some r₁ =>
    obtain ⟨continues₁, prepared⟩ := ended r₁ rfl
    have version₁ : r₁.config.version = version := by rw [continues₁.1, same]
    refine (phase_heeds (tight.continues continues₁) version₁ fun nodeID member =>
      maySend_apply ?_).bind
      fun res k₂ due₂ within₂ ended => ?_
    · exact (mem_append.mp member).imp (prepared nodeID) fun staged =>
        (known.1 nodeID staged).trans within₁
    cases res with
    | none => exact .pure (by simp)
    | some r₂ =>
      obtain ⟨continues₂, applied⟩ := ended r₂ rfl
      have soaks : Proceeds version k₂ due₂
          (if plan.needSoak then waitOrAbort driverID r₂ r₂.config.soakTime else pure false) := by
        split
        · exact waitOrAbort_heeds r₂ _
        · exact .pure trivial
      refine soaks.bind fun stopped k₃ due₃ within₃ _ => ?_
      cases stopped with
      | true => exact .pure (by simp)
      | false =>
        have continues := continues₁.trans continues₂
        refine (phase_heeds (tight.continues continues) (by rw [continues.1, same])
            fun nodeID member =>
          maySend_confirm ?_).imp fun res _ _ _ confirmed r' returned =>
            continues.trans (confirmed r' returned).1
        refine (mem_append.mp member).imp (fun node => (applied nodeID node).trans within₃)
          fun soaking => ?_
        exact (known.2 nodeID soaking).trans ((within₁.trans within₂).trans within₃)

theorem leaves_heeds (heeds : Proceeds version k due p) :
    Heeds (Permitted version) (fun res _ _ => ∀ r' ∈ res, Continues r r') k due
      (p >>= fun _ => pure none : Drive (Option Rollout)) :=
  heeds.bind fun _ _ _ _ _ => .pure (by simp)

theorem runBatch_heeds (index : Nat) (batch : List String) (ends : Tight r ∨ batch = [])
    (same : r.config.version = version) :
    Heeds (Permitted version) (fun res _ _ => ∀ r' ∈ res, Continues r r')
      k due (runBatch driverID r index batch) := by
  refine .ask_bind (fun _ _ => trivial) fun aborted => ?_
  cases aborted with
  | true => exact leaves_heeds (finishAborted_heeds r)
  | false =>
    refine (isAbortedInKV_heeds r.id).bind fun gone k₂ due₂ _ _ => ?_
    cases gone with
    | true => exact leaves_heeds (revertBatch_heeds r)
    | false =>
      refine (saveStateLocked_heeds _).bind fun saved k₃ due₃ _ saving => ?_
      have continues₃ : Continues r saved.1 := saving.1
      obtain ⟨r₃, failure⟩ := saved
      cases failure with
      | some e => exact leaves_heeds (handlePersistError_heeds r₃ e)
      | none =>
        obtain tight | rfl := ends
        swap
        · refine .gather_bind (fun _ _ => .nothing) (by simp) (.pure fun r' returned => ?_)
          cases returned
          exact continues₃
        have version₃ : r₃.config.version = version := by rw [continues₃.1, same]
        refine (planBatch_heeds (tight.continues continues₃) version₃).bind
          fun res k₅ due₅ _ ended => ?_
        obtain ⟨r₅, plan, outcome⟩ := res
        cases outcome with
        | abort => exact leaves_heeds (finishAborted_heeds r₅)
        | stop => exact .pure (by simp)
        | ok =>
          obtain ⟨continues₅, known⟩ := ended rfl
          have whole := continues₃.trans continues₅
          exact (runPlan_heeds (tight.continues whole) (by rw [whole.1, same]) known).imp
              fun res _ _ _ ran r' returned =>
            whole.trans (ran r' returned)

/-- No failure is survived, or nothing is left to do. -/
theorem runBatches_heeds (ends : Tight r ∨ ∀ batch ∈ batches, batch = [])
    (same : r.config.version = version) :
    Proceeds version k due (runBatches driverID r index batches) := by
  induction batches generalizing r index k due with
  | nil => trivial
  | cons batch rest ih =>
    refine (runBatch_heeds index batch (ends.imp_right (· batch mem_cons_self)) same).bind
      fun res k₁ due₁ _ ran => ?_
    cases res with
    | none => trivial
    | some r₁ =>
      have continues := ran r₁ rfl
      have pauses : Proceeds version k₁ due₁
          (if rest = [] then pure false else waitOrAbort driverID r₁ r₁.config.batchPause) := by
        split
        · exact .pure trivial
        · exact waitOrAbort_heeds r₁ _
      refine pauses.bind fun stopped k₂ due₂ _ _ => ?_
      cases stopped with
      | true => trivial
      | false =>
        refine ih (ends.imp (·.continues continues) fun empty batch member => ?_)
          (by rw [continues.1, same])
        exact empty batch (mem_cons_of_mem _ member)

theorem executeRollout_heeds
    (harmless : r.state = .aborting ∨ Tight r ∨ ∀ batch ∈ r.batches.drop r.currentBatch, batch = [])
    (same : r.config.version = version) :
    Proceeds version k due (executeRollout driverID r) := by
  unfold executeRollout
  split
  · exact finishAborted_heeds r
  rename_i driven
  refine (runBatches_heeds (harmless.resolve_left driven) same).bind fun res k₁ due₁ _ _ => ?_
  cases res with
  | none => trivial
  | some r₁ =>
    exact .ask_bind (fun _ _ => trivial) fun now =>
      (saveStateLocked_heeds _).bind fun _ _ _ _ _ => trivial

section
variable {driverID : String}

/-- No node is prepared or seen to be. -/
def Unprepared : Happening RolloutOp → Prop
  | .answered (.request _ cmd) (.ok resp) =>
    (cmd.command = .prepare → resp.status = "error") ∧ resp.state ≠ some .staged
  | _ => True

def Switches {ρ : Type} : RolloutOp ρ → Prop
  | .request _ cmd => cmd.command = .apply
  | _ => False

/-- With no node prepared, the driver can come to such a result, or switch a node. -/
def Leads (goal : α → Prop) (p : Drive α) : Prop :=
  ∀ channel, May Unprepared Switches (fun a _ => goal a) p channel

theorem Leads.bind (first : Leads goal p) (second : ∀ a, goal a → Leads goal' (f a)) :
    Leads goal' (p >>= f) :=
  fun channel => (first channel).bind fun a channel' reached => second a reached channel'

theorem Leads.imp {goal' : α → Prop} (leads : Leads goal p) (weaker : ∀ a, goal a → goal' a) :
    Leads goal' p :=
  Script.bind_pure p ▸ leads.bind fun a reached _ => weaker a reached

theorem leads_pure (reached : goal a) : Leads goal (pure a) := fun _ => reached

theorem leads_ask (op : RolloutOp ρ) (answer : ρ) (fine : Unprepared (.answered op answer)) :
    Leads (· = answer) (ask op) := fun _ => ⟨answer, fine, rfl⟩

theorem leads_save (r : Rollout) :
    Leads (fun saved => Continues r saved.1 ∧ saved.2 = none) (saveStateLocked driverID r) :=
  fun _ => ⟨(0 : Int), trivial, .ok 1, trivial, ⟨rfl, rfl⟩, rfl⟩

theorem leads_settle (below : recorded.failedCount < recorded.config.maxFailed) :
    Leads (fun settled => Continues recorded settled.1 ∧ settled.2 = .ok)
      (settle driverID recorded) := by
  refine (leads_save recorded).bind fun saved done => ?_
  obtain ⟨r, failure⟩ := saved
  obtain ⟨continues, rfl⟩ := done
  have limit : ¬ r.config.maxFailed ≤ r.failedCount := by
    rw [continues.1, continues.2]
    exact Int.not_le.mpr below
  exact leads_pure ⟨continues, if_neg limit⟩

def prepareMessage (nodeID : String) : NodeMessage := { nodeID := nodeID, action := .prepare }

def skipMessage (nodeID : String) : NodeMessage := { nodeID := nodeID, note := "already running 1" }

theorem probeNode_ends
    (fine : resp.status ≠ "error") (idle : resp.state = some .idle)
    (decides : ∀ again, decideProbe config nodeID resp again = pure message) (attempts : Nat) :
    (probeNode config nodeID (attempts + 1)).Ends Unprepared message := by
  refine .ask_bind false trivial
    (.ask_bind (.ok resp) ⟨fun prepares => (by cases prepares), by simp [idle]⟩ ?_)
  simp only [answered, if_neg fine]
  rw [decides]
  rfl

theorem probes_end (labelled : config.version = "1") (nodeID : String) (others : List String) :
    Forall₂ (Script.Ends Unprepared)
      ((nodeID :: others).map fun nodeID => probeNode config nodeID probeBusyRetries)
      (prepareMessage nodeID :: others.map skipMessage) := by
  let idle (running : String) : UpdateResponse :=
    { status := "ok", state := some .idle, runningVersion := running }
  have older : sameVersion "0" config.version = false := by rw [labelled]; decide
  have current : sameVersion "1" config.version = true := by rw [labelled]; decide
  refine .cons ?_ (forall₂_map_left_iff.mpr
    (forall₂_map_right_iff.mpr (forall₂_same.mpr fun other _ => ?_)))
  · exact @probeNode_ends _ _ (idle "0") _ (by simp [idle]) rfl
      (fun _ => by simp [decideProbe, idle, older, prepareMessage]) 11
  · exact @probeNode_ends _ _ (idle "1") _ (by simp [idle]) rfl
      (fun _ => by simp [decideProbe, idle, current, skipMessage]) 11

theorem may_receiveAll (messages : List NodeMessage) :
    May Unprepared Switches (fun received _ => received = messages)
      (receiveAll messages.length) messages := by
  induction messages with
  | nil => exact rfl
  | cons first rest ih =>
    exact ⟨first, rest, rfl, ih.bind fun _ _ same => congrArg (first :: ·) same⟩

theorem leads_considerProbes
    (fine : ∀ message ∈ messages, message.err = none) (below : r.failedCount < r.config.maxFailed) :
    Leads (fun res => Continues r res.1 ∧ res.2 = (messages.foldl .add plan, .ok))
      (considerProbes driverID messages r plan) := by
  induction messages generalizing r plan with
  | nil => exact leads_pure ⟨⟨rfl, rfl⟩, rfl⟩
  | cons first rest ih =>
    have recorded := (recordProbe_records 0 r first).continues (fine first mem_cons_self)
    refine (leads_ask .now 0 trivial).bind fun now zero => ?_
    obtain rfl := zero
    refine (leads_settle (by rw [recorded.1, recorded.2]; exact below)).bind fun settled done => ?_
    obtain ⟨r', outcome⟩ := settled
    obtain ⟨continues, rfl⟩ := done
    have whole := recorded.trans continues
    refine (ih (fun message member => fine message (mem_cons_of_mem _ member)) ?_).imp
      fun res ended => ?_
    · rw [whole.1, whole.2]
      exact below
    · exact ⟨whole.trans ended.1, ended.2⟩

theorem foldl_add (messages : List NodeMessage) (plan : BatchPlan)
    (plain : ∀ message ∈ messages, message.err = none ∧
      (message.action = .prepare ∨ message.action = .skip)) : (messages.foldl .add plan).prepare =
        plan.prepare ++ (messages.filter fun message => message.action = .prepare).map (·.nodeID) ∧
      (messages.foldl .add plan).apply = plan.apply := by
  induction messages generalizing plan with
  | nil => simp
  | cons first rest ih =>
    obtain ⟨prepared, applied⟩ :=
      ih (plan.add first) fun message member => plain message (mem_cons_of_mem _ member)
    obtain ⟨fine, prepares | skips⟩ := plain first mem_cons_self
    · have added : plan.add first =
          { plan with prepare := plan.prepare ++ [first.nodeID], needSoak := true } := by
        simp [BatchPlan.add, fine, prepares]
      rw [foldl_cons, prepared, applied, added]
      simp [prepares]
    · have added : plan.add first = plan := by simp [BatchPlan.add, fine, skips]
      rw [foldl_cons, prepared, applied, added]
      simp [skips]

theorem leads_planBatch (labelled : r.config.version = "1")
    (below : r.failedCount < r.config.maxFailed) :
    Leads (fun res => Continues r res.1 ∧ (res.2.1.prepare = [nodeID] ∧ res.2.1.apply = []) ∧
      res.2.2 = .ok) (planBatch driverID r (nodeID :: others)) := by
  let messages := prepareMessage nodeID :: others.map skipMessage
  let sorted := messages.insertionSort fun a b => a.nodeID ≤ b.nodeID
  have same : sorted.Perm messages := perm_insertionSort _ _
  have plain : ∀ message ∈ sorted, message.err = none ∧
      (message.action = .prepare ∨ message.action = .skip) := by
    intro message member
    obtain rfl | skipped := mem_cons.mp (same.mem_iff.mp member)
    · exact ⟨rfl, .inl rfl⟩
    · obtain ⟨other, -, rfl⟩ := mem_map.mp skipped
      exact ⟨rfl, .inr rfl⟩
  have one : sorted.filter (fun message => message.action = .prepare) =
      [prepareMessage nodeID] := by
    have picked : messages.filter (fun message => message.action = .prepare) =
        [prepareMessage nodeID] := by
      simp [messages, prepareMessage, skipMessage, filter_eq_nil_iff]
    exact perm_singleton.mp (picked ▸ same.filter _)
  obtain ⟨prepared, applied⟩ := foldl_add sorted {} plain
  rw [one] at prepared
  refine fun _ => .inr ⟨messages, probes_end labelled nodeID others, ?_⟩
  have length : (nodeID :: others).length = messages.length := by simp [messages]
  rw [length]
  refine (may_receiveAll messages).bind fun received channel all => ?_
  obtain rfl := all
  refine (leads_considerProbes (fun message member => (plain message member).1) below).imp
    (fun res ended => ?_) channel
  rw [ended.2]
  exact ⟨ended.1, ⟨prepared, applied⟩, rfl⟩

def anyManifest : BinaryManifest := ⟨⟨"1", "peel", false⟩, "linux", "amd64", "", "", 0, 0, 0⟩

/-- A refused command does not end the rollout below its limit. -/
theorem leads_prepare (nodeID : String) (below : r.failedCount + 1 < r.config.maxFailed) :
    Leads (fun res => ∃ r', res = some r') (phase driverID r [nodeID] .prepare "prepared") := by
  let message : NodeMessage :=
    { nodeID := nodeID, err := some "node error: cannot prepare in state staged" }
  have refused : (commandNode r.config nodeID .prepare).Ends Unprepared message :=
    ⟨false, trivial, none, trivial, .ok anyManifest, trivial,
      .ok { status := "error", error := "cannot prepare in state staged" },
        ⟨fun _ => rfl, by simp⟩, rfl⟩
  have count : (recordResult "prepared" 0 r message).failedCount <
      (recordResult "prepared" 0 r message).config.maxFailed := by
    obtain ⟨config, counted⟩ := recordResult_records "prepared" 0 r message
    rw [config, counted]
    exact below
  have settles := (@leads_settle driverID _ count).bind fun settled done => show Leads (·.2 = .ok)
    (if settled.2 = .ok then collectResults driverID "prepared" 0 settled.1 else pure settled) by
      rw [if_pos done.2]
      exact leads_pure rfl
  have runs : Leads (·.2 = .ok) (runBatchCommand driverID r [nodeID] .prepare "prepared") :=
    fun _ => .inr ⟨[message], .cons refused .nil, message, [], rfl, (0 : Int), trivial, settles []⟩
  refine runs.bind fun res ended => ?_
  obtain ⟨r', outcome⟩ := res
  obtain rfl := ended
  exact leads_pure ⟨r', rfl⟩

/-- Then the node is switched all the same. -/
theorem leads_apply (r : Rollout) (nodeID : String) :
    Leads goal (phase driverID r [nodeID] .apply "applied") := by
  have asks : (commandNode r.config nodeID .apply).Asks Unprepared Switches :=
    .inr ⟨false, trivial, .inr ⟨none, trivial, .inr ⟨.ok anyManifest, trivial, .inl rfl⟩⟩⟩
  exact fun _ => .inl ⟨_, mem_cons_self, asks⟩

theorem leads_runPlan (prepared : plan.prepare = [nodeID] ∧ plan.apply = [])
    (below : r.failedCount + 1 < r.config.maxFailed) : Leads goal (runPlan driverID r plan) := by
  unfold runPlan
  rw [prepared.1, prepared.2]
  refine (leads_prepare nodeID below).bind fun res ended => ?_
  obtain ⟨r', rfl⟩ := ended
  exact (@leads_apply _ (fun _ => False) r' nodeID).bind fun _ never => never.elim

theorem leads_runBatch {good : BatchPlan → Prop} (index : Nat)
    (plans : ∀ r', Continues r r' → Leads
      (fun res => Continues r' res.1 ∧ good res.2.1 ∧ res.2.2 = .ok) (planBatch driverID r' batch))
    (runs : ∀ r' plan, Continues r r' → good plan → Leads goal (runPlan driverID r' plan)) :
    Leads goal (runBatch driverID r index batch) := by
  refine (leads_ask .aborted false trivial).bind fun aborted no => ?_
  obtain rfl := no
  have looks : Leads (· = false) (isAbortedInKV r.id) :=
    fun _ => ⟨.error "nats: timeout", trivial, rfl⟩
  refine looks.bind fun gone no => ?_
  obtain rfl := no
  refine (leads_save { r with state := .rolling, currentBatch := index }).bind fun saved done => ?_
  obtain ⟨r₁, failure⟩ := saved
  obtain ⟨continues, rfl⟩ := done
  refine (plans r₁ continues).bind fun res planned => ?_
  obtain ⟨r₂, plan, outcome⟩ := res
  obtain ⟨continues', made, rfl⟩ := planned
  exact runs r₂ plan (continues.trans continues') made

theorem leads_runBatches
    (left : ∃ batch ∈ batches, batch ≠ []) (labelled : r.config.version = "1")
    (below : r.failedCount + 1 < r.config.maxFailed) :
    Leads (fun _ => False) (runBatches driverID r index batches) := by
  induction batches generalizing r index with
  | nil => simp at left
  | cons batch rest ih =>
    have within {r'} (continues : Continues r r') : r'.failedCount + 1 < r'.config.maxFailed := by
      rw [continues.1, continues.2]
      exact below
    cases batch with
    | cons nodeID others =>
      have runs : Leads (fun _ => False) (runBatch driverID r index (nodeID :: others)) :=
        leads_runBatch index (fun r' continues =>
          leads_planBatch (by rw [continues.1]; exact labelled)
          (lt_trans (Int.lt_succ _) (within continues))) fun r' plan continues made =>
            leads_runPlan made (within continues)
      exact runs.bind fun _ never => never.elim
    | nil =>
      have left' : ∃ batch ∈ rest, batch ≠ [] := by simpa using left
      have plans (r' : Rollout) :
          Leads (fun res => Continues r' res.1 ∧ res.2.1 = {} ∧ res.2.2 = .ok)
            (planBatch driverID r' []) := fun _ => .inr ⟨[], .nil, ⟨rfl, rfl⟩, rfl, rfl⟩
      have runs : Leads (fun res => ∃ r', res = some r' ∧ Continues r r')
          (runBatch driverID r index []) := by
        refine @leads_runBatch _ _ _ _ (· = {}) index (fun r' _ => plans r')
          fun r' plan continues made => ?_
        obtain rfl := made
        exact leads_pure ⟨r', rfl, continues⟩
      refine runs.bind fun res ended => ?_
      obtain ⟨r', rfl, continues⟩ := ended
      have pauses : Leads (· = false)
          (if rest = [] then pure false else waitOrAbort driverID r' r'.config.batchPause) := by
        split
        · exact leads_pure rfl
        · exact fun _ => ⟨.elapsed, trivial, rfl⟩
      refine pauses.bind fun stopped no => ?_
      obtain rfl := no
      exact ih left' (by rw [continues.1]; exact labelled) (within continues)

end

/-- A rollout with room for two failures switches a node whose preparation failed. -/
theorem not_switchesPrepared (driven : r.state ≠ .aborting)
    (below : r.failedCount + 1 < r.config.maxFailed)
    (left : ∃ batch ∈ r.batches.drop r.currentBatch, batch ≠ []) :
    ¬ SwitchesPrepared driverID r := by
  intro switches
  have leads : Leads (fun _ => False) (executeRollout driverID (r.toVersion "1")) := by
    unfold executeRollout
    rw [if_neg (show (r.toVersion "1").state ≠ .aborting from driven)]
    exact (@leads_runBatches driverID _ (r.toVersion "1") _ left rfl below).bind fun _ never =>
      never.elim
  have strikes := @Site.strikes_of_may _ _ _ _ _ _ _ [] [] (fun _ => trivial) (by simp) (leads [])
  obtain ⟨site, ρ, op, history, run, asked, applies, unprepared⟩ := strikes
  have orderly := switches "1" site run
  rw [asked] at orderly
  cases op with
  | request subject cmd =>
    obtain ready | seen := orderly.1.1 applies
    · obtain ⟨cmd, resp, heard, prepares, -, fine⟩ := ready
      exact fine ((unprepared _ heard).1 prepares)
    · obtain ⟨cmd, resp, heard, -, -, staged, -⟩ := seen
      exact (unprepared _ heard).2 staged
  | _ => exact applies.elim

/-- A rollout switches prepared nodes only, whatever its version and whatever the nodes answer, if
and only if it is aborting already, ends with the next failure, or has no node left. -/
theorem switches_prepared_iff (driverID : String) (r : Rollout) :
    SwitchesPrepared driverID r ↔ r.state = .aborting ∨ r.config.maxFailed ≤ r.failedCount + 1 ∨
      ∀ batch ∈ r.batches.drop r.currentBatch, batch = [] := by
  constructor
  · intro switches
    by_contra loose
    push Not at loose
    obtain ⟨driven, below, left⟩ := loose
    exact not_switchesPrepared driven below left switches
  · intro harmless version site run
    have heeds : Proceeds version .nothing []
        (executeRollout driverID (r.toVersion version)) := executeRollout_heeds harmless rfl
    exact Site.orderly_of_heeds heeds run

/-- A rollout of one idle node that tolerates a failure. -/
theorem failed_prepare_is_applied :
    ¬ SwitchesPrepared "master-1"
      ⟨"rol-2xQ", ⟨"0.4.0", "peel", "*", 1, 0, 60 * secondNanos, 30 * secondNanos, 2, false, ""⟩,
        .rolling, [["web-01"]],
        [⟨"web-01", "pending", "", 0, ""⟩], 0, 0, none, 0, "", "master-1", 0, 1⟩ :=
  not_switchesPrepared (by decide) (by decide) ⟨["web-01"], by decide, by decide⟩

end Zester.Update

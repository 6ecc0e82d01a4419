import Zester.Jobs.FanOutProofs

/-! The programs of the masters keep to the monitor of a job, so the job is fanned out at
most once. A job whose ID is the index key of another is the exception. -/
namespace Zester.Jobs

theorem named_job (id : j.jid = key) : Named jid key (.job j) := by
  refine ⟨fun same => ⟨j, rfl, id.trans same⟩, ?_⟩
  rintro other j' ⟨⟩ same
  exact absurd (id.symm.trans same) other

theorem named_index (plain : key ≠ jid) (owner : String) (updated : Int) :
    Named jid key (.index owner updated) := by
  refine ⟨fun same => absurd same plain, ?_⟩
  rintro - j' ⟨⟩ -
  rfl

theorem announce_guards (id type : String) :
    (monitor jid).Guards (fun s' _ => s' = s) s (announce id type) :=
  ⟨trivial, fun _ _ => rfl⟩

theorem publishAll_guards (ours : j.jid = jid → s = .fans j targets) :
    (monitor jid).Guards (fun s' _ => j.jid = jid → s' = .fans j []) s
    (publishAll j false targets) := by
  induction targets generalizing s with
  | nil => exact ours
  | cons target targets ih =>
    refine ⟨fun same => ⟨j, rfl, .inl ⟨rfl, targets, ours same⟩⟩, fun reply _ => ih fun same => ?_⟩
    have own : (execRequestForJob j).jid = jid := same
    rw [ours same]
    simp [learnsPut, own]

theorem resend_guards (ours : j.jid = jid → s = .fans j []) :
    (monitor jid).Guards (fun s' _ => s' = s) s (publishAll j true targets) := by
  induction targets with
  | nil => rfl
  | cons target targets ih =>
    refine ⟨fun same => ⟨j, rfl, .inr ⟨rfl, ours same⟩⟩, fun reply _ => ?_⟩
    have unchanged : learnsPut jid s (.cmd target) (.request (execRequestForJob j) true) = s := by
      cases s <;> rfl
    rw [next_put, unchanged]
    exact ih

/-- What a program may leave behind. -/
inductive Leaves (jid : String) (s : Stage) : List Task → Prop where
  | nothing : Leaves jid s []
  | watch {j : Job} {redispatch : Bool} (course : Course) (watches : Watches jid s j redispatch) :
      Leaves jid s [.watch j redispatch course]

theorem Leaves.hands (leaves : Leaves jid s tasks) : ∃ known, Hands jid s tasks known := by
  cases leaves with
  | nothing => exact ⟨_, .nothing⟩
  | watch course watches => exact ⟨_, .watch course watches⟩

theorem Leaves.hands_visit (leaves : Leaves jid s tasks) (scanning : Scanning) (misses : Misses)
    (keys : List String) : ∃ known, Hands jid s (tasks ++ [.visit scanning misses keys]) known := by
  cases leaves with
  | nothing => exact ⟨_, .visit scanning misses keys⟩
  | watch course watches => exact ⟨_, .both course watches scanning misses keys⟩

theorem start_guards {post : Stage → α → Prop}
    {next : Except Refusal Nat → Program Place Item α}
    (claims : j.jid = jid → ∃ old, s = .holds rev old ∧ old.status = .claimed)
    (running : j.status = .running)
    (lost : ∀ refused, (monitor jid).Guards post s (next (.error refused)))
    (won : ∀ s' newRev, 0 < newRev →
      (j.jid = jid → s' = .fans { j with epoch := newRev } j.targets) →
      (monitor jid).Guards post s' (next (.ok newRev))) :
    (monitor jid).Guards post s (Program.update (.jobs j.jid) (.job j) rev >>= next) := by
  refine ⟨⟨_, rfl, named_job rfl, fun same => ⟨_, rfl, ?_⟩⟩, ?_⟩
  · obtain ⟨old, known, claimed⟩ := claims same
    exact .inr (.inl ⟨old, known, .inr (.inl ⟨claimed, running⟩)⟩)
  rintro (refused | newRev) heard
  · rw [next_update, learnsUpdate_error]
    exact lost refused
  · refine won _ newRev (heard newRev rfl) fun same => ?_
    obtain ⟨old, rfl, claimed⟩ := claims same
    simp [learnsUpdate, same, claimed, running]

theorem fanOut_guards (fans : j.jid = jid → s = .fans j j.targets) (fenced : 0 < j.epoch)
    (course : Course) : (monitor jid).Guards (fun s' _ => Leaves jid s' [.watch j true course]) s
      (publishAll j false j.targets) :=
  (publishAll_guards fans).imp fun _ _ done => .watch course fun same => ⟨fenced, .inr (done same)⟩

theorem Named.replace (named : Named jid key item) (decoded : item.asJob = some j)
    (id : new.jid = j.jid) (status : new.status = j.status) : Named jid key (.job new) := by
  constructor
  · intro same
    obtain ⟨j', rfl, own⟩ := named.1 same
    cases decoded
    exact ⟨new, rfl, id.trans own⟩
  · rintro other j' ⟨⟩ same
    exact status.trans (named.2 other j decoded (id.symm.trans same))

theorem scan_guards (scanning : Scanning) (counts : String → Nat) :
    (monitor jid).Obeys s (scan scanning counts) := by
  refine .op trivial ?_
  rintro (refused | places) -
  · exact Leaves.nothing.hands
  · exact Leaves.nothing.hands_visit scanning ⟨counts, []⟩ (activeKeys places)

theorem publishRunning_guards (env : Env) (d : Dispatching)
    (claims : j.jid = jid → ∃ old, s = .holds rev old ∧ old.status = .claimed) :
    (monitor jid).Guards (fun s' result => Leaves jid s' result.2) s
      (publishRunning env d j rev) := by
  refine .op trivial ?_
  rintro (refused | _) -
  · exact .nothing
  refine start_guards (j := { j with epoch := rev, status := .running, updated := d.runningAt })
    claims rfl (fun _ => .nothing) ?_
  intro s' newRev fenced fans
  exact .bind (fanOut_guards fans fenced d.course) fun _ _ leaves => leaves

section
variable (plain : ∀ other, activeJobKey other ≠ jid)
include plain

theorem writeActiveKey_guards (other owner : String) (now : Int) (create : Bool) :
    (monitor jid).Guards (fun s' _ => s' = s) s (writeActiveKey other owner now create) := by
  have named := named_index (plain other) owner now
  cases create with
  | true =>
    refine ⟨⟨_, rfl, named, fun same => absurd same (plain other)⟩, fun reply _ => ?_⟩
    rw [next_create, learnsCreate_other (plain other)]
    rfl
  | false => exact ⟨⟨plain other, named⟩, fun _ _ => rfl⟩

theorem clearActiveKey_guards (other : String) :
    (monitor jid).Guards (fun s' _ => s' = s) s (clearActiveKey other) :=
  ⟨⟨_, rfl, plain other⟩, fun _ _ => rfl⟩

theorem closing_guards (id type : String) : (monitor jid).Guards (fun s' _ => s' = s) s (do
      clearActiveKey id
      announce id type) := by
  refine .bind (clearActiveKey_guards plain id) ?_
  rintro _ _ rfl
  exact announce_guards id type

theorem finalizeJob_guards (watches : Watches jid s j redispatch) (final : Final) :
    (monitor jid).Guards (fun _ _ => True) s (finalizeJob j final) := by
  unfold finalizeJob
  dsimp only
  split
  · refine ⟨⟨_, rfl, named_job rfl, fun same => ⟨_, rfl, ?_⟩⟩, ?_⟩
    · obtain ⟨-, ⟨-, old, rfl, live⟩ | rfl⟩ := watches same
      · exact .inr (.inl ⟨old, rfl, .inr (.inr ⟨live, final.status.2⟩)⟩)
      · exact .inr (.inr ⟨j, [], rfl, rfl, final.status.2⟩)
    · rintro (refused | rev) -
      · exact trivial
      · exact (closing_guards plain j.jid "completed").imp fun _ _ _ => trivial
  · rename_i unfenced
    have other : j.jid ≠ jid := fun same => unfenced (watches same).1
    refine ⟨⟨other, named_job rfl⟩, ?_⟩
    rintro (refused | rev) -
    · exact (announce_guards j.jid "completed").imp fun _ _ _ => trivial
    · exact (closing_guards plain j.jid "completed").imp fun _ _ _ => trivial

theorem watch_guards (watches : Watches jid s j redispatch) (course : Course) :
    (monitor jid).Guards (fun _ _ => True) s (watch j redispatch course) := by
  have resent : (monitor jid).Guards (fun s' _ => s' = s) s
      (redispatchSilent j (if redispatch then course.heard else none)) := by
    cases redispatch with
    | false => rfl
    | true =>
      cases heard : course.heard with
      | none => rfl
      | some peels =>
        refine resend_guards fun same => ?_
        obtain ⟨-, ⟨⟨⟩, -⟩ | fans⟩ := watches same
        exact fans
  refine .bind resent ?_
  rintro _ _ rfl
  cases course.final with
  | none => exact trivial
  | some final => exact finalizeJob_guards plain watches final

/-- What a recovery has to know of the record that it took over. -/
def Recovers (jid : String) (s : Stage) (j : Job) : Prop :=
  j.jid = jid → 0 < j.epoch ∧ j.status.isTerminal = false ∧
    ((s = .foreign j.epoch ∧ j.status = .unset) ∨
      ∃ old, s = .holds j.epoch old ∧ old.status = j.status)

theorem failReclaimLimitExceeded_guards (recovers : Recovers jid s j) (now : Int) :
    (monitor jid).Guards (fun _ _ => True) s (failReclaimLimitExceeded now j) := by
  unfold failReclaimLimitExceeded
  dsimp only
  split
  · refine ⟨⟨_, rfl, named_job rfl, fun same => ⟨_, rfl, ?_⟩⟩, ?_⟩
    · obtain ⟨-, live, ⟨rfl, -⟩ | ⟨old, rfl, kept⟩⟩ := recovers same
      · exact .inl rfl
      · exact .inr (.inl ⟨old, rfl, .inr (.inr ⟨kept ▸ live, rfl⟩)⟩)
    · rintro (refused | rev) -
      · exact trivial
      · exact (closing_guards plain j.jid "failed").imp fun _ _ _ => trivial
  · rename_i unfenced
    have other : j.jid ≠ jid := fun same => unfenced (recovers same).1
    refine ⟨⟨other, named_job rfl⟩, ?_⟩
    rintro (refused | rev) -
    · exact trivial
    · exact (closing_guards plain j.jid "failed").imp fun _ _ _ => trivial

theorem reclaimJob_guards (r : Reclaiming) (recovers : Recovers jid s j) :
    (monitor jid).Guards (Leaves jid) s (reclaimJob r j) := by
  have normalized : Recovers jid s (normalizeDeadline r.now j) := by
    unfold normalizeDeadline
    split <;> exact recovers
  unfold reclaimJob
  dsimp only
  generalize normalizeDeadline r.now j = orphan at normalized
  -- a claim and a running job are known from the record itself
  have known : ∀ {status : Status}, status ≠ .unset → orphan.status = status → orphan.jid = jid →
      ∃ old, s = .holds orphan.epoch old ∧ old.status = status := by
    intro status named same own
    obtain ⟨-, -, ⟨-, unset⟩ | ⟨old, held, kept⟩⟩ := normalized own
    · exact absurd (same.symm.trans unset) named
    · exact ⟨old, held, kept.trans same⟩
  have watched : ∀ {status : Status}, status ≠ .unset → orphan.status = status →
      Leaves jid s [.watch orphan false r.course] := by
    intro status named same
    refine .watch r.course fun own => ⟨(normalized own).1, .inl ⟨rfl, ?_⟩⟩
    obtain ⟨old, held, kept⟩ := known named same own
    exact ⟨old, held, (kept.trans same.symm) ▸ (normalized own).2.1⟩
  split
  · exact .bind (failReclaimLimitExceeded_guards plain normalized r.runningAt)
      fun _ _ _ => .nothing
  cases status : orphan.status with
  | claimed =>
    dsimp only
    split
    · refine start_guards (j := { orphan with
        status := .running, updated := r.runningAt, offlineAtDispatch := r.offline })
        (known (by decide) status) rfl (fun _ => .nothing) ?_
      intro s' newRev fenced fans
      exact .bind (fanOut_guards fans fenced r.course) fun _ _ leaves => leaves
    · exact watched (by decide) status
  | running => exact watched (by decide) status
  | _ => exact .nothing

theorem visitKey_guards (scanning : Scanning) (misses : Misses) (activeKey : String) :
    (monitor jid).Guards (fun s' result => Leaves jid s' result.2) s
      (visitKey scanning misses activeKey) := by
  unfold visitKey
  generalize String.ofList (activeKey.toList.drop activeJobKeyPrefix.length) = key
  have cleared : ∀ {s}, (monitor jid).Guards (fun s' result => Leaves jid s' result.2) s (do
      clearActiveKey key
      return (misses, [])) :=
    fun {s} => .bind (clearActiveKey_guards plain key) fun _ _ _ => .nothing
  refine .op trivial ?_
  rintro (refused | ⟨item, rev⟩) heard
  · cases refused with
    | notFound => exact cleared
    | _ => exact .nothing
  have named : Named jid key item := heard key _ rfl rfl
  dsimp only
  cases decoded : item.asJob with
  | none => exact .nothing
  | some j =>
    dsimp only
    split
    · exact cleared
    rename_i live
    split
    · exact .nothing
    split
    · exact .nothing
    have learned : key = jid → learnsGet jid s (.jobs key) (.ok ⟨item, rev⟩) = .holds rev j := by
      intro same
      obtain ⟨j', rfl, -⟩ := named.1 same
      cases decoded
      simp [learnsGet, same]
    rw [next_get]
    refine .op (m := monitor jid)
      ⟨key, rfl, named.replace decoded rfl rfl, fun same => ⟨_, rfl, ?_⟩⟩ ?_
    · exact .inr (.inl ⟨j, learned same, .inl rfl⟩)
    rintro (refused | newRev) taken
    · exact .nothing
    refine .bind (writeActiveKey_guards plain key _ _ false) ?_
    rintro _ _ rfl
    refine .bind (reclaimJob_guards plain _ ?_) fun _ _ leaves => leaves
    intro own
    refine ⟨taken newRev rfl, by simpa using live, ?_⟩
    rw [next_update]
    by_cases same : key = jid
    · rw [learned same]
      have kept : ¬(j.status = .claimed ∧ j.status = .running) := by
        rintro ⟨claimed, running⟩
        cases claimed.symm.trans running
      simp [learnsUpdate, same, kept]
    · have unset := named.2 same j decoded own
      simp [learnsUpdate, same, unset]

theorem dispatch_guards (env : Env) (d : Dispatching) (requested : Job) :
    (monitor jid).Guards (fun s' result => Leaves jid s' result.2) s
    (dispatch env d requested) := by
  unfold dispatch
  refine .op ⟨_, rfl, named_job rfl, fun _ => ⟨_, rfl, rfl⟩⟩ ?_
  rintro (refused | rev) -
  · -- the job was claimed before
    refine .op trivial ?_
    rintro (refused | ⟨item, rev⟩) heard
    · exact .nothing
    have named : Named jid (d.claim requested).jid item := heard _ _ rfl rfl
    dsimp only
    cases decoded : item.asJob with
    | none => exact .nothing
    | some existing =>
      dsimp only
      split
      · rename_i claimed
        split
        · refine .bind (writeActiveKey_guards plain _ _ _ false) ?_
          rintro _ _ rfl
          refine publishRunning_guards env d fun same => ⟨existing, ?_, claimed⟩
          obtain ⟨j', rfl, -⟩ := named.1 same
          cases decoded
          simp [learnsGet, same]
        · exact .nothing
      · split <;> exact .nothing
  · refine .bind (writeActiveKey_guards plain _ _ _ true) ?_
    rintro _ _ rfl
    refine publishRunning_guards env d fun same => ⟨d.claim requested, ?_, rfl⟩
    simp [learnsCreate, same]

theorem visit_obeys (env : Env) (scanning : Scanning) (misses : Misses) (keys : List String) :
    (monitor jid).Obeys s (Task.program env (.visit scanning misses keys)) := by
  cases keys with
  | nil => exact Leaves.nothing.hands
  | cons key keys =>
    refine .bind (visitKey_guards plain scanning misses key) ?_
    rintro s' ⟨misses', tasks⟩ leaves
    exact leaves.hands_visit scanning misses' keys

theorem watch_obeys (env : Env) (watches : Watches jid s j redispatch) (course : Course) :
    (monitor jid).Obeys s (Task.program env (.watch j redispatch course)) :=
  .bind (watch_guards plain watches course) fun _ _ _ => Leaves.nothing.hands

theorem call_obeys (env : Env) {task : Task} (call : task.isCall = true) :
    (monitor jid).Obeys s (task.program env) := by
  cases task with
  | dispatch d j =>
    exact .bind (dispatch_guards plain env d j) fun _ _ leaves => leaves.hands
  | scan scanning counts => exact scan_guards scanning counts
  | visit scanning misses keys | watch j redispatch course => cases call

theorem hands_obey (env : Env) (hands : Hands jid s tasks known) :
    List.Forall₂ (fun k task => (monitor jid).Obeys k (task.program env)) known tasks := by
  cases hands with
  | nothing => exact .nil
  | visit scanning misses keys => exact .cons (visit_obeys plain env scanning misses keys) .nil
  | watch course watches => exact .cons (watch_obeys plain env watches course) .nil
  | both course watches scanning misses keys =>
    exact .cons (watch_obeys plain env watches course)
      (.cons (visit_obeys plain env scanning misses keys) .nil)

/-- The invariant of a job holds in every run of the masters. -/
theorem fanned_of_reaches (run : Reaches env crew) :
    ∃ known, Fanned jid crew.bucket known := by
  obtain ⟨known, -, fanned⟩ := monitor_keeps.reaches
    (fun task call => call_obeys plain env call) (hands_obey plain env) Fanned.empty run
  exact ⟨known, fanned⟩

end

/-- For every job whose ID is no index key: whatever the masters dispatch, scan and recover
and wherever they crash, the job starts to run once, each target of the record with which it
starts is sent one first request at most, and nothing is sent before. -/
theorem fanned_out_once (env : Env) (jid : String) (plain : ∀ other, jid ≠ activeJobKey other)
    (crew : Crew Task Place Item) (run : Reaches env crew) :
    (transitions (statuses crew.bucket jid)).count (.claimed, .running) ≤ 1 ∧
      (initialRequests crew.bucket jid = [] ∨ ∃ j, Started jid crew.bucket j ∧
        (initialRequests crew.bucket jid).Sublist (fanOut j j.targets)) ∧
      (storedStatus crew.bucket jid = some .claimed → requests crew.bucket jid = []) := by
  obtain ⟨known, fanned⟩ := fanned_of_reaches (fun other same => plain other same.symm) run
  refine ⟨transitions_claimed_once fanned.chain, ?_, fun claimed => ?_⟩
  · refine fanned.once.imp (fun silent => ?_)
      (Exists.imp fun _ sent => ⟨sent.started, sent.initial⟩)
    rw [initialRequests, silent]
    rfl
  · refine (fanned.quiet fun status stored => ?_).1
    exact Option.some.inj (stored.symm.trans claimed)

def quietEnv : Env := ⟨fun _ => "refused", "undecodable", ⟨fun _ _ => true, fun _ _ => true⟩⟩

def dispatchTo (peel jid : String) : Task :=
  .dispatch ⟨"m1", [], 1, 1, 1, ⟨none, none⟩⟩
    { jid := jid, function := "cmd.run", targets := [peel] }

def scanBy (master : String) : Task :=
  .scan ⟨master, [master], 2, 2, fun _ => ⟨2, 2, 2, [], ⟨none, none⟩⟩⟩ fun _ => 0

def dispatchedTwice (jid : String) : Crew Task Place Item :=
  Crew.serve (Task.program quietEnv) ⟨.empty, []⟩
    [(dispatchTo "web1" jid, 9), (scanBy "m1", 12), (dispatchTo "web1" jid, 9)]

theorem dispatchedTwice_reaches (jid : String) : Reaches quietEnv (dispatchedTwice jid) := by
  refine Crew.serve_reaches (fun _ _ => trivial) _ ?_ _
  simp [Task.isCall, dispatchTo, scanBy]

theorem fanned_out_once_redispatched :
    storedStatus (dispatchedTwice "j1").bucket "j1" = some .running ∧
      (transitions (statuses (dispatchedTwice "j1").bucket "j1")).count
      (.claimed, .running) ≤ 1 := by
  refine ⟨by decide +kernel, (fanned_out_once quietEnv "j1" ?_ _ (dispatchedTwice_reaches "j1")).1⟩
  intro other same
  have heads := congrArg (fun key => key.toList.head?) same
  simp [activeJobKey, activeJobKeyPrefix] at heads

/-- The scan takes the record of the job for the index entry of another and deletes it. -/
theorem index_key_fanned_out_twice :
    Reaches quietEnv (dispatchedTwice "active.x") ∧
      (transitions (statuses (dispatchedTwice "active.x").bucket "active.x")).count
        (.claimed, .running) = 2 ∧
      (initialRequests (dispatchedTwice "active.x").bucket "active.x").map Prod.fst =
        ["web1", "web1"] :=
  ⟨dispatchedTwice_reaches "active.x", by decide +kernel, by decide +kernel⟩

end Zester.Jobs

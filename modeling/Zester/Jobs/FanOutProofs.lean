import Mathlib.Data.List.Chain
import Zester.Jobs.Manager

/-! What the masters together make of one job: its stored statuses and the requests that
were published for it. The invariant is over everything that the programs know about the
record of the job. -/
namespace Zester.Jobs
open List Option
variable {place : Place}

def statuses (b : Bucket Place Item) (jid : String) : List Status :=
  ((b.history (.jobs jid)).filterMap fun item => item.asJob.map Job.status).reverse

def storedStatus (b : Bucket Place Item) (jid : String) : Option Status :=
  (b.get (.jobs jid)).bind fun entry => entry.value.asJob.map Job.status

def transitions (path : List Status) : List (Status × Status) := path.zip path.tail

/-- A request of a job, with its target and whether it is a re-send. -/
def request? (jid : String) (place : Place) (value : Option Item) :
    Option (String × ExecRequest × Bool) :=
  match place, value with
  | .cmd target, some (.request req again) =>
    if req.jid = jid then some (target, req, again) else none
  | _, _ => none

/-- The requests that were published for a job, oldest first. -/
def requests (b : Bucket Place Item) (jid : String) : List (String × ExecRequest × Bool) :=
  (b.log.filterMap fun message => request? jid message.key message.value).reverse

def initialRequests (b : Bucket Place Item) (jid : String) : List (String × ExecRequest) :=
  ((requests b jid).filter fun sent => !sent.2.2).map fun sent => (sent.1, sent.2.1)

def fanOut (j : Job) (targets : List String) : List (String × ExecRequest) :=
  targets.map fun target => (target, execRequestForJob j)

@[simp] theorem requests_write :
    requests (b.write place value) jid = requests b jid ++ (request? jid place value).toList := by
  cases sent : request? jid place value <;> simp [requests, Bucket.write, sent]

theorem requests_write_aside (silent : request? jid place value = none) :
    requests (b.write place value) jid = requests b jid := by
  simp [silent]

theorem initialRequests_write_aside (silent : request? jid place value = none) :
    initialRequests (b.write place value) jid = initialRequests b jid := by
  rw [initialRequests, requests_write_aside silent, initialRequests]

theorem statuses_write_aside (other : place ≠ .jobs jid) :
    statuses (b.write place value) jid = statuses b jid := by
  rw [statuses, Bucket.history_write_ne other.symm, statuses]

theorem storedStatus_write_aside (other : place ≠ .jobs jid) :
    storedStatus (b.write place value) jid = storedStatus b jid := by
  rw [storedStatus, Bucket.get_write_ne other.symm, storedStatus]

@[simp] theorem statuses_write_job (b : Bucket Place Item) (jid : String) (j : Job) :
    statuses (b.write (.jobs jid) (some (.job j))) jid = statuses b jid ++ [j.status] := by
  simp [statuses, Item.asJob]

@[simp] theorem storedStatus_write_job (b : Bucket Place Item) (jid : String) (j : Job) :
    storedStatus (b.write (.jobs jid) (some (.job j))) jid = some j.status := by
  simp [storedStatus, Item.asJob]

theorem statuses_of_get (held : b.get (.jobs jid) = some ⟨.job j, revision⟩) :
    ∃ before, statuses b jid = before ++ [j.status] := by
  obtain ⟨before, history⟩ := Bucket.history_of_get held
  exact ⟨(before.filterMap fun item => item.asJob.map Job.status).reverse,
    by simp [statuses, history, Item.asJob]⟩

theorem statuses_prefix (jid : String) (later : b ≤ b') : statuses b jid <+: statuses b' jid :=
  reverse_prefix.mpr ((IsSuffix.filterMap _ later).filterMap _)

/-- A stored status is kept, starts to run, or ends. -/
def Follows (old new : Status) : Prop :=
  new = old ∨ (old = .claimed ∧ new = .running) ∨ (old.isTerminal = false ∧ new.isTerminal = true)

def Status.rank : Status → Nat
  | .pending | .claimed | .unset => 0
  | .running => 1
  | .complete | .partial_ | .timeout | .failed | .canceled => 2

theorem Follows.rank_le (follows : Follows old new) : old.rank ≤ new.rank := by
  obtain rfl | ⟨rfl, rfl⟩ | ⟨-, terminal⟩ := follows
  · exact le_refl _
  · decide
  · cases new <;> first | (cases terminal; done) | (cases old <;> decide)

theorem transitions_claimed_once (chain : path.IsChain Follows) :
    (transitions path).count (.claimed, .running) ≤ 1 := by
  have sorted : path.Pairwise fun old new => old.rank ≤ new.rank := by
    have ranks : (path.map Status.rank).IsChain (· ≤ ·) :=
      (isChain_map Status.rank).mpr (chain.imp fun _ _ follows => follows.rank_le)
    exact pairwise_map.mp (isChain_iff_pairwise.mp ranks)
  clear chain
  induction path with
  | nil => simp [transitions]
  | cons first rest ih =>
    obtain ⟨-, rising⟩ := pairwise_cons.mp sorted
    cases rest with
    | nil => simp [transitions]
    | cons second rest =>
      have split : transitions (first :: second :: rest) =
          (first, second) :: transitions (second :: rest) := rfl
      rw [split, count_cons]
      by_cases here : (first, second) = (Status.claimed, Status.running)
      · cases here
        -- from here on every status has the rank of a running job at least
        have above := (pairwise_cons.mp rising).1
        have none : (transitions (.running :: rest)).count (.claimed, .running) = 0 := by
          rw [count_eq_zero]
          intro member
          have claimed : Status.claimed ∈ Status.running :: rest := (of_mem_zip member).1
          obtain same | member := mem_cons.mp claimed
          · cases same
          · exact absurd (above _ member) (by decide)
        simp [none]
      · have step : ((first, second) == (Status.claimed, Status.running)) = false := by
          simpa using here
        simp only [step]
        exact ih rising

theorem last_of_terminal (chain : (status :: rest).IsChain Follows)
    (terminal : status.isTerminal = true) : (status :: rest).getLast? = some status := by
  induction rest with
  | nil => rfl
  | cons next rest ih =>
    obtain ⟨follows, later⟩ := isChain_cons_cons.mp chain
    obtain rfl | ⟨rfl, -⟩ | ⟨live, -⟩ := follows
    · rw [getLast?_cons_cons]
      exact ih later
    · cases terminal
    · cases terminal.symm.trans live

/-- What a program knows of the record of a job. -/
inductive Stage where
  | idle
  /-- A revision of another key. -/
  | foreign (rev : Nat)
  /-- The record was this one at the revision. -/
  | holds (rev : Nat) (j : Job)
  /-- The running record was stored, and these targets are still to be sent to. -/
  | fans (j : Job) (left : List String)

def Stage.isFans : Stage → Bool
  | .fans _ _ => true
  | _ => false

variable (jid : String)

/-- What is under the key of the job is a record with its ID, and what has the ID under
another key has no status. -/
def Named (key : String) (item : Item) : Prop :=
  (key = jid → ∃ j, item = .job j ∧ j.jid = jid) ∧
    (key ≠ jid → ∀ j, item.asJob = some j → j.jid = jid → j.status = .unset)

/-- As long as the record has the revision, it has the property. -/
def Reads (b : Bucket Place Item) (rev : Nat) (P : Job → Prop) : Prop :=
  rev ≤ b.revision ∧ ∀ last, b.last (.jobs jid) = some last → last.revision = rev →
    ∃ j, last.value = some (.job j) ∧ P j

def Knows (b : Bucket Place Item) : Stage → Prop
  | .idle => True
  | .foreign rev => Reads jid b rev fun _ => False
  | .holds rev j => Reads jid b rev (· = j)
  | .fans j _ => Reads jid b j.epoch fun old => old.status.isTerminal = false

section
variable (s : Stage)

def allowsPut (place : Place) (item : Item) : Prop :=
  match place, item with
  | .jobs key, item => key ≠ jid ∧ Named jid key item
  | .cmd target, .request req again => req.jid = jid → ∃ j, req = execRequestForJob j ∧
      ((again = false ∧ ∃ left, s = .fans j (target :: left)) ∨ (again = true ∧ s = .fans j []))
  | _, _ => True

def allowsCreate (place : Place) (item : Item) : Prop :=
  ∃ key, place = .jobs key ∧ Named jid key item ∧
    (key = jid → ∃ j, item = .job j ∧ j.status = .claimed)

def allowsUpdate (place : Place) (item : Item) (rev : Nat) : Prop :=
  ∃ key, place = .jobs key ∧ Named jid key item ∧ (key = jid → ∃ new, item = .job new ∧
    (s = .foreign rev ∨ (∃ old, s = .holds rev old ∧ Follows old.status new.status) ∨
      ∃ j left, s = .fans j left ∧ rev = j.epoch ∧ new.status.isTerminal = true))

/-- What a program may do: the record of the job is created as a claim, replaced by what
follows it, and never deleted; requests go out after the running record was stored. -/
def allows : {ρ : Type} → Op Place Item ρ → Prop
  | _, .get _ | _, .keys => True
  | _, .put place item => allowsPut jid s place item
  | _, .create place item => allowsCreate jid place item
  | _, .update place item rev => allowsUpdate jid s place item rev
  | _, .delete place => ∃ key, place = .jobs key ∧ key ≠ jid

def hears : {ρ : Type} → Op Place Item ρ → Except Refusal ρ → Prop
  | _, .get place, reply => ∀ key entry, place = .jobs key → reply = .ok entry →
      Named jid key entry.value
  | _, .create _ _, reply | _, .update _ _ _, reply => ∀ rev, reply = .ok rev → 0 < rev
  | _, .put _ _, _ | _, .delete _, _ | _, .keys, _ => True

def learnsGet (place : Place) (reply : Except Refusal (Entry Item)) : Stage :=
  match place, reply with
  | .jobs key, .ok ⟨.job j, rev⟩ => if key = jid then .holds rev j else s
  | _, _ => s

def learnsPut (place : Place) (item : Item) : Stage :=
  match place, item, s with
  | .cmd _, .request req false, .fans j (_ :: left) =>
    if req.jid = jid then .fans j left else s
  | _, _, _ => s

def learnsCreate (place : Place) (item : Item) (reply : Except Refusal Nat) : Stage :=
  match place, item, reply with
  | .jobs key, .job j, .ok rev => if key = jid then .holds rev j else s
  | _, _, _ => s

def learnsUpdate (place : Place) (item : Item) (reply : Except Refusal Nat) : Stage :=
  match place, item, reply with
  | .jobs key, .job new, .ok rev =>
    if key = jid then
      match s with
      | .holds _ old =>
        if old.status = .claimed ∧ new.status = .running then
          .fans { new with epoch := rev } new.targets
        else .holds rev new
      | _ => .idle
    else .foreign rev
  | _, _, _ => s

def learns : {ρ : Type} → Op Place Item ρ → Except Refusal ρ → Stage
  | _, .get place, reply => learnsGet jid s place reply
  | _, .put place item, _ => learnsPut jid s place item
  | _, .create place item, reply => learnsCreate jid s place item reply
  | _, .update place item _, reply => learnsUpdate jid s place item reply
  | _, .delete _, _ | _, .keys, _ => s

variable {jid s}

theorem learnsPut_other (other : req.jid ≠ jid) :
    learnsPut jid s (.cmd target) (.request req again) = s := by
  cases again <;> cases s with
  | fans j left => cases left <;> simp [learnsPut, other]
  | _ => rfl

@[simp] theorem learnsCreate_error : learnsCreate jid s place item (.error refused) = s := by
  cases place <;> cases item <;> rfl

theorem learnsCreate_other (other : key ≠ jid) : learnsCreate jid s (.jobs key) item reply = s := by
  cases item <;> cases reply <;> simp [learnsCreate, other]

@[simp] theorem learnsUpdate_error : learnsUpdate jid s place item (.error refused) = s := by
  cases place <;> cases item <;> rfl

theorem learnsUpdate_other (s : Stage) (item : Item) (other : key ≠ jid) :
    learnsUpdate jid s (.jobs key) item (.ok rev) = .foreign rev ∨
      learnsUpdate jid s (.jobs key) item (.ok rev) = s := by
  cases item <;> simp [learnsUpdate, other]

end

/-- What a watcher of the job has to know: the record that it watches, and for a re-send
that the job was fanned out. -/
def Watches (s : Stage) (j : Job) (redispatch : Bool) : Prop :=
  j.jid = jid → 0 < j.epoch ∧
    ((redispatch = false ∧ ∃ old, s = .holds j.epoch old ∧ old.status.isTerminal = false) ∨
      s = .fans j [])

/-- A watcher is the only one to go on with what is known. -/
inductive Hands (s : Stage) : List Task → List Stage → Prop where
  | nothing : Hands s [] []
  | visit (scanning : Scanning) (misses : Misses) (keys : List String) :
      Hands s [.visit scanning misses keys] [.idle]
  | watch {j : Job} {redispatch : Bool} (course : Course) (watches : Watches jid s j redispatch) :
      Hands s [.watch j redispatch course] [s]
  | both {j : Job} {redispatch : Bool} (course : Course) (watches : Watches jid s j redispatch)
      (scanning : Scanning) (misses : Misses) (keys : List String) :
      Hands s [.watch j redispatch course, .visit scanning misses keys] [s, .idle]

def monitor : Monitor Task Place Item Stage where
  fresh := .idle
  allows := allows jid
  hears := hears jid
  next := learns jid
  hands := Hands jid

section
variable (s : Stage) (place : Place) (item : Item)

@[simp] theorem next_get (reply : Except Refusal (Entry Item)) :
    (monitor jid).next s (.get place) reply = learnsGet jid s place reply := rfl

@[simp] theorem next_put (reply : Except Refusal Nat) :
    (monitor jid).next s (.put place item) reply = learnsPut jid s place item := rfl

@[simp] theorem next_create (reply : Except Refusal Nat) :
    (monitor jid).next s (.create place item) reply = learnsCreate jid s place item reply := rfl

@[simp] theorem next_update (rev : Nat) (reply : Except Refusal Nat) :
    (monitor jid).next s (.update place item rev) reply = learnsUpdate jid s place item reply := rfl

end

/-- The claim of the job was replaced by this running record, whose epoch is its revision. -/
def Started (b : Bucket Place Item) (j : Job) : Prop :=
  ∃ (claimed : Bucket Place Item) (running : Job), storedStatus claimed jid = some .claimed ∧
    running.status = .running ∧ claimed.write (.jobs jid) (some (.job running)) ≤ b ∧
      j = { running with epoch := claimed.revision + 1 }

/-- The requests of the job were sent for the record with which it started to run, the first
ones to these targets. -/
structure SentFor (b : Bucket Place Item) (j : Job) (targets : List String) : Prop where
  started : Started jid b j
  initial : (initialRequests b jid).Sublist (fanOut j targets)
  epoch : ∀ sent ∈ requests b jid, sent.2.1.epoch = j.epoch

/-- What holds of the bucket and of all that is known of a job. -/
structure Fanned (b : Bucket Place Item) (known : List Stage) : Prop where
  named : ∀ {key item}, b.Logged (.jobs key) item → Named jid key item
  kept : ∀ last, b.last (.jobs jid) = some last → last.value.isSome = true
  chain : (statuses b jid).IsChain Follows
  knows : ∀ s ∈ known, Knows jid b s
  one : known.countP Stage.isFans ≤ 1
  once : requests b jid = [] ∨ ∃ j : Job, SentFor jid b j j.targets
  fanning :
    ∀ {j left}, .fans j left ∈ known → ∃ done, j.targets = done ++ left ∧ SentFor jid b j done
  quiet : (∀ status, storedStatus b jid = some status → status = .claimed) →
    requests b jid = [] ∧ known.countP Stage.isFans = 0

variable {jid} {b : Bucket Place Item} {after : List Stage}

theorem Reads.mono (reads : Reads jid b rev P) (later : b ≤ b') : Reads jid b' rev P := by
  refine ⟨reads.1.trans (Bucket.revision_mono later), fun last found same => ?_⟩
  exact reads.2 last (Bucket.last_of_le later found (same ▸ reads.1)) same

theorem reads_of_get (found : b.get (.jobs jid) = some ⟨.job j, rev⟩) (holds : P j) :
    Reads jid b rev P := by
  have message := Bucket.get_eq_some_iff.mp found
  refine ⟨Bucket.get_revision_le found, fun last here _ => ⟨j, ?_, holds⟩⟩
  cases message.symm.trans here
  rfl

theorem reads_of_write (b : Bucket Place Item) (holds : P j) :
    Reads jid (b.write (.jobs jid) (some (.job j))) (b.revision + 1) P :=
  reads_of_get (Bucket.get_put_self _ _ _) holds

theorem reads_of_other (other : place ≠ .jobs jid) (P : Job → Prop) :
    Reads jid (b.write place value) (b.revision + 1) P := by
  refine ⟨le_refl _, fun last found same => ?_⟩
  rw [Bucket.last_write_ne other.symm] at found
  have old := Bucket.last_revision_le found
  omega

theorem Knows.write (knows : Knows jid b s) (place : Place) (value : Option Item) :
    Knows jid (b.write place value) s := by
  cases s with
  | idle => trivial
  | _ => exact Reads.mono knows (b.le_write place value)

theorem Started.write (started : Started jid b j) (place : Place) (value : Option Item) :
    Started jid (b.write place value) j := by
  obtain ⟨claimed, running, held, status, later, same⟩ := started
  exact ⟨claimed, running, held, status, Bucket.le_trans later (b.le_write place value), same⟩

theorem SentFor.aside (sent : SentFor jid b j targets) (silent : request? jid place value = none) :
    SentFor jid (b.write place value) j targets := by
  obtain ⟨started, initial, epoch⟩ := sent
  refine ⟨started.write place value, ?_, ?_⟩
  · rwa [initialRequests_write_aside silent]
  · rwa [requests_write_aside silent]

theorem SentFor.send (sent : SentFor jid b j done) (own : (execRequestForJob j).jid = jid) :
    SentFor jid (b.write (.cmd target) (some (.request (execRequestForJob j) again))) j
      (if again then done else done ++ [target]) := by
  refine ⟨sent.started.write _ _, ?_, fun other member => ?_⟩
  · cases again with
    | true => simpa [initialRequests, request?, own] using sent.initial
    | false =>
      simpa [initialRequests, request?, own, fanOut]
        using sent.initial.append (Sublist.refl [(target, execRequestForJob j)])
  · rw [requests_write] at member
    obtain earlier | now := mem_append.mp member
    · exact sent.epoch other earlier
    · simp only [request?, own, if_true, toList_some, mem_singleton] at now
      rw [now]
      rfl

theorem SentFor.mono (sent : SentFor jid b j targets) : SentFor jid b j (targets ++ more) := by
  refine ⟨sent.started, sent.initial.trans ?_, sent.epoch⟩
  rw [fanOut, fanOut, map_append]
  exact sublist_append_left _ _

namespace Fanned

theorem empty : Fanned jid .empty [] where
  named logged := absurd logged Bucket.not_logged_empty
  kept last found := by cases found
  chain := isChain_nil
  knows s member := by cases member
  one := by simp
  once := .inl rfl
  fanning member := by cases member
  quiet _ := ⟨rfl, rfl⟩

/-- A part of what is known is replaced by what is no new fan-out. -/
theorem learn (middle middle' : List Stage) (fanned : Fanned jid b (before ++ (middle ++ after)))
    (knows : ∀ s ∈ middle', Knows jid b s)
    (fewer : middle'.countP Stage.isFans ≤ middle.countP Stage.isFans)
    (fans : ∀ {j left}, .fans j left ∈ middle' → ∃ done, j.targets = done ++ left ∧
      SentFor jid b j done) : Fanned jid b (before ++ (middle' ++ after)) := by
  have counts : (before ++ (middle' ++ after)).countP Stage.isFans ≤
      (before ++ (middle ++ after)).countP Stage.isFans := by
    simp only [countP_append]
    omega
  refine { fanned with knows := ?_, one := counts.trans fanned.one, fanning := ?_, quiet := ?_ }
  · have known := fanned.knows
    simp only [forall_mem_append] at known ⊢
    exact ⟨known.1, knows, known.2.2⟩
  · intro j left member
    simp only [mem_append] at member
    obtain first | new | last := member
    · exact fanned.fanning (by simp [first])
    · exact fans new
    · exact fanned.fanning (by simp [last])
  · intro claimed
    obtain ⟨silent, none⟩ := fanned.quiet claimed
    exact ⟨silent, Nat.le_zero.mp (none ▸ counts)⟩

theorem learn_one (fanned : Fanned jid b (before ++ s :: after)) (s' : Stage)
    (knows : Knows jid b s')
    (plain : s'.isFans = false) : Fanned jid b (before ++ s' :: after) := by
  refine fanned.learn [s] [s'] (by simpa using knows) (by simp [plain]) ?_
  intro j left member
  obtain rfl := mem_singleton.mp member
  cases plain

/-- A write beside the record of the job. -/
theorem beside (fanned : Fanned jid b known) (other : place ≠ .jobs jid)
    (named : ∀ {key item}, place = .jobs key → value = some item → Named jid key item)
    (once : requests (b.write place value) jid = [] ∨
      ∃ j : Job, SentFor jid (b.write place value) j j.targets)
    (fanning : ∀ {j left}, .fans j left ∈ known →
      ∃ done, j.targets = done ++ left ∧ SentFor jid (b.write place value) j done)
    (quiet : requests b jid = [] → known.countP Stage.isFans = 0 →
      requests (b.write place value) jid = []) : Fanned jid (b.write place value) known where
  named logged := by
    obtain ⟨same, stored⟩ | before := Bucket.logged_write.mp logged
    · exact named same.symm stored
    · exact fanned.named before
  kept last found := fanned.kept last (by rwa [Bucket.last_write_ne other.symm] at found)
  chain := by rw [statuses_write_aside other]; exact fanned.chain
  knows s member := (fanned.knows s member).write place value
  one := fanned.one
  once := once
  fanning := fanning
  quiet claimed := by
    rw [storedStatus_write_aside other] at claimed
    obtain ⟨silent, none⟩ := fanned.quiet claimed
    exact ⟨quiet silent none, none⟩

theorem once_aside (fanned : Fanned jid b known) (silent : request? jid place value = none) :
    requests (b.write place value) jid = [] ∨
      ∃ j : Job, SentFor jid (b.write place value) j j.targets := by
  rw [requests_write_aside silent]
  exact fanned.once.imp_right (Exists.imp fun _ sent => sent.aside silent)

theorem aside (fanned : Fanned jid b known) (other : place ≠ .jobs jid)
    (silent : request? jid place value = none)
    (named : ∀ {key item}, place = .jobs key → value = some item → Named jid key item) :
    Fanned jid (b.write place value) known := by
  refine fanned.beside other named (fanned.once_aside silent) ?_ ?_
  · exact fun member => (fanned.fanning member).imp fun _ sent => ⟨sent.1, sent.2.aside silent⟩
  · rw [requests_write_aside silent]
    exact fun none _ => none

theorem record {j : Job} (fanned : Fanned jid b known) (id : j.jid = jid)
    (chain : (statuses b jid ++ [j.status]).IsChain Follows)
    (quiet : j.status = .claimed → requests b jid = [] ∧ known.countP Stage.isFans = 0) :
    Fanned jid (b.write (.jobs jid) (some (.job j))) known where
  named {key item} logged := by
    obtain ⟨same, stored⟩ | before := Bucket.logged_write.mp logged
    · cases same
      cases stored
      exact ⟨fun _ => ⟨j, rfl, id⟩, fun other => absurd rfl other⟩
    · exact fanned.named before
  kept last found := by
    rw [Bucket.last_write_self] at found
    cases found
    rfl
  chain := by rw [statuses_write_job]; exact chain
  knows s member := (fanned.knows s member).write _ _
  one := fanned.one
  once := fanned.once_aside rfl
  fanning member := (fanned.fanning member).imp fun _ sent => ⟨sent.1, sent.2.aside rfl⟩
  quiet claimed := by
    rw [requests_write_aside rfl]
    exact quiet (claimed _ (storedStatus_write_job b jid j))

theorem alone (fans : .fans j left ∈ before ++ s :: after)
    (others : before.countP Stage.isFans = 0 ∧ after.countP Stage.isFans = 0) :
    .fans j left = s := by
  simp only [mem_append, mem_cons] at fans
  obtain first | here | last := fans
  · exact absurd rfl (countP_eq_zero.mp others.1 _ first)
  · exact here
  · exact absurd rfl (countP_eq_zero.mp others.2 _ last)

/-- The first program to store the running record fans the job out. -/
theorem start (fanned : Fanned jid b (before ++ s :: after)) (started : Started jid b j)
    (knows : Knows jid b (.fans j j.targets)) (running : storedStatus b jid = some .running)
    (silent : requests b jid = []) (none : (before ++ s :: after).countP Stage.isFans = 0) :
    Fanned jid b (before ++ .fans j j.targets :: after) := by
  have others : before.countP Stage.isFans = 0 ∧ after.countP Stage.isFans = 0 := by
    simp only [countP_append, countP_cons] at none
    omega
  refine { fanned with knows := ?_, one := ?_, fanning := ?_, quiet := ?_ }
  · have known := fanned.knows
    simp only [forall_mem_append, forall_mem_cons] at known ⊢
    exact ⟨known.1, knows, known.2.2⟩
  · simp [others.1, others.2, countP_cons, Stage.isFans]
  · intro j' left member
    cases alone member others
    exact ⟨[], rfl, started, by simp [initialRequests, silent], by simp [silent]⟩
  · intro claimed
    cases claimed _ running

/-- A request of the only fan-out. -/
theorem publish (fanned : Fanned jid b (before ++ .fans j left :: after))
    (split : j.targets = done ++ left)
    (sent : SentFor jid (b.write (.cmd target) (some (.request req again))) j done) :
    Fanned jid (b.write (.cmd target) (some (.request req again)))
      (before ++ .fans j left :: after) := by
  refine fanned.beside (by simp) (by simp) (.inr ⟨j, split ▸ sent.mono⟩) (fun member => ?_)
    fun _ none => ?_
  · have others : before.countP Stage.isFans = 0 ∧ after.countP Stage.isFans = 0 := by
      have one := fanned.one
      simp only [countP_append, countP_cons, Stage.isFans, if_true] at one
      omega
    cases alone member others
    exact ⟨done, split, sent⟩
  · simp [countP_append, Stage.isFans] at none

/-- The next request of the fan-out; it counts as sent even if it could not be published. -/
theorem step_request
    (fanned : Fanned jid b (before ++ .fans j (target :: left) :: after)) (ours : j.jid = jid)
    (yields : Regime.anything.Yields (.put (.cmd target) (.request (execRequestForJob j) false)) b
      reply b') : Fanned jid b' (before ++ learnsPut jid (.fans j (target :: left)) (.cmd target)
      (.request (execRequestForJob j) false) :: after) := by
  have own : (execRequestForJob j).jid = jid := ours
  obtain ⟨done, split, sent⟩ := fanned.fanning mem_append_cons_self
  have split' : j.targets = (done ++ [target]) ++ left := by simp [split]
  simp only [learnsPut, own, if_true]
  have counted : Fanned jid b (before ++ .fans j left :: after) := by
    refine fanned.learn [.fans j (target :: left)] [.fans j left] ?_ (by simp [Stage.isFans]) ?_
    · simpa [Knows] using fanned.knows _ mem_append_cons_self
    · intro j' left' member
      cases mem_singleton.mp member
      exact ⟨_, split', sent.mono⟩
  obtain rfl | rfl := yields.put
  · exact counted
  · exact counted.publish split' (sent.send own)

theorem step_resend (fanned : Fanned jid b (before ++ .fans j [] :: after)) (ours : j.jid = jid)
    (yields : Regime.anything.Yields (.put (.cmd target) (.request (execRequestForJob j) true)) b
      reply b') : Fanned jid b' (before ++ .fans j [] :: after) := by
  obtain rfl | rfl := yields.put
  · exact fanned
  · obtain ⟨done, split, sent⟩ := fanned.fanning mem_append_cons_self
    exact fanned.publish split (sent.send ours)

theorem stored (fanned : Fanned jid b known) : storedStatus b jid = (statuses b jid).getLast? := by
  cases found : b.last (.jobs jid) with
  | none =>
    have missing : b.get (.jobs jid) = none := by simp [Bucket.get, found]
    simp [storedStatus, missing, statuses, Bucket.history_of_last_none found]
  | some last =>
    obtain ⟨item, kept⟩ := isSome_iff_exists.mp (fanned.kept last found)
    have held : b.get (.jobs jid) = some ⟨item, last.revision⟩ :=
      Bucket.get_eq_some_iff.mpr (by rw [found, ← kept])
    obtain ⟨j, rfl, -⟩ := (fanned.named (Bucket.logged_of_get held)).1 rfl
    obtain ⟨before, path⟩ := statuses_of_get held
    rw [path, getLast?_concat, storedStatus, held]
    rfl

theorem terminal_stays (fanned : Fanned jid b known) (fanned' : Fanned jid b' known')
    (later : b ≤ b')
    (stored : storedStatus b jid = some status) (terminal : status.isTerminal = true) :
    storedStatus b' jid = some status := by
  rw [fanned.stored] at stored
  obtain ⟨before, path⟩ := getLast?_eq_some_iff.mp stored
  obtain ⟨rest, path'⟩ := statuses_prefix jid later
  have chain := fanned'.chain
  rw [← path', path, append_assoc, singleton_append] at chain
  rw [fanned'.stored, ← path', path, append_assoc, singleton_append, getLast?_append_cons]
  exact last_of_terminal chain.right_of_append terminal

theorem untouched (fanned : Fanned jid b known) (free : b.get (.jobs jid) = none) :
    statuses b jid = [] ∧ requests b jid = [] ∧ known.countP Stage.isFans = 0 := by
  have silent := fanned.quiet (by simp [storedStatus, free])
  have last := fanned.stored
  rw [storedStatus, free] at last
  exact ⟨getLast?_eq_none_iff.mp last.symm, silent⟩

section
variable (fanned : Fanned jid b (before ++ s :: after))
include fanned

theorem step_get {reply : Except Refusal (Entry Item)}
    (yields : Regime.anything.Yields (.get place) b reply b') :
    hears jid (.get place) reply ∧
      Fanned jid b' (before ++ learnsGet jid s place reply :: after) := by
  obtain rfl := yields.read rfl
  constructor
  · rintro key entry rfl rfl
    exact fanned.named (Bucket.logged_of_get yields.found)
  · unfold learnsGet
    split
    · rename_i j rev
      split
      · rename_i same
        subst same
        have held := yields.found
        exact fanned.learn_one (.holds rev j) (reads_of_get held rfl) rfl
      · exact fanned
    · exact fanned

theorem step_put_aside (other : place ≠ .jobs jid)
    (silent : request? jid place (some item) = none)
    (named : ∀ {key}, place = .jobs key → Named jid key item)
    (yields : Regime.anything.Yields (.put place item) b reply b') :
    Fanned jid b' (before ++ s :: after) := by
  obtain rfl | rfl := yields.put
  · exact fanned
  · refine fanned.aside other silent ?_
    rintro key item' same ⟨⟩
    exact named same

theorem step_put (allowed : allowsPut jid s place item)
    (yields : Regime.anything.Yields (.put place item) b reply b') :
    Fanned jid b' (before ++ learnsPut jid s place item :: after) := by
  cases place with
  | event subject => exact fanned.step_put_aside (by simp) rfl (by simp) yields
  | jobs key =>
    refine fanned.step_put_aside (by simpa using allowed.1) rfl ?_ yields
    rintro key' ⟨⟩
    exact allowed.2
  | cmd target =>
    cases item with
    | job j | index owner updated | event type =>
      exact fanned.step_put_aside (by simp) rfl (by simp) yields
    | request req again =>
      by_cases ours : req.jid = jid
      · obtain ⟨j, rfl, ⟨rfl, left, rfl⟩ | ⟨rfl, rfl⟩⟩ := allowed ours
        · exact fanned.step_request ours yields
        · exact fanned.step_resend ours yields
      · rw [learnsPut_other ours]
        exact fanned.step_put_aside (by simp) (by simp [request?, ours]) (by simp) yields

theorem step_create (allowed : allowsCreate jid place item)
    (yields : Regime.anything.Yields (.create place item) b reply b') :
    Fanned jid b' (before ++ learnsCreate jid s place item reply :: after) := by
  obtain ⟨key, rfl, named, claim⟩ := allowed
  obtain ⟨⟨refused, rfl⟩, rfl⟩ | ⟨answer, free, rfl⟩ := yields.guarded (Op.guarded_create _ _)
  · rwa [learnsCreate_error]
  by_cases same : key = jid
  · subst same
    obtain ⟨j, rfl, claimed⟩ := claim rfl
    obtain ⟨_, ⟨⟩, id⟩ := named.1 rfl
    obtain ⟨path, silent⟩ := fanned.untouched free
    have recorded := fanned.record id (by rw [path]; exact isChain_singleton _) (fun _ => silent)
    obtain rfl | ⟨refused, rfl⟩ := answer
    · simp only [learnsCreate, if_true]
      exact recorded.learn_one (.holds _ j) (reads_of_write b rfl) rfl
    · exact recorded
  · rw [learnsCreate_other same]
    refine fanned.aside (by simpa using same) rfl ?_
    rintro key' item' ⟨⟩ ⟨⟩
    exact named

theorem step_replace
    (held : b.get (.jobs jid) = some ⟨.job old, rev⟩) (id : new.jid = jid)
    (follows : Follows old.status new.status)
    (knows : (∃ r, s = .holds r old) ∨ new.status.isTerminal = true)
    (answer : reply = .ok (b.revision + 1) ∨ ∃ refused, reply = .error refused) :
    Fanned jid (b.write (.jobs jid) (some (.job new)))
      (before ++ learnsUpdate jid s (.jobs jid) (.job new) reply :: after) := by
  obtain ⟨path, read⟩ := statuses_of_get held
  have stored : storedStatus b jid = some old.status := by simp [storedStatus, held, Item.asJob]
  have quiet : old.status = .claimed →
      requests b jid = [] ∧ (before ++ s :: after).countP Stage.isFans = 0 := by
    intro claimed
    refine fanned.quiet fun status same => ?_
    rw [stored, claimed] at same
    exact (some.inj same).symm
  have chain : (statuses b jid ++ [new.status]).IsChain Follows := by
    have before := fanned.chain
    rw [read] at before ⊢
    rw [append_assoc]
    exact isChain_append_cons_cons.mpr ⟨before, follows, isChain_singleton _⟩
  have recorded : Fanned jid (b.write (.jobs jid) (some (.job new))) (before ++ s :: after) := by
    refine fanned.record id chain fun claimed => quiet ?_
    obtain same | ⟨-, running⟩ | ⟨-, terminal⟩ := follows
    · rw [← same, claimed]
    · cases running.symm.trans claimed
    · rw [claimed] at terminal
      cases terminal
  obtain rfl | ⟨refused, rfl⟩ := answer
  · simp only [learnsUpdate, if_true]
    split
    · rename_i known
      split
      · rename_i starts
        obtain ⟨claimed, running⟩ := starts
        have same : known.status = old.status := by
          obtain ⟨r', ⟨⟩⟩ | terminal := knows
          · rfl
          · rw [running] at terminal
            cases terminal
        obtain ⟨silent, none⟩ := quiet (same ▸ claimed)
        have started : Started jid (b.write (.jobs jid) (some (.job new)))
            { new with epoch := b.revision + 1 } :=
          ⟨b, new, by rw [stored, ← same, claimed], running, Bucket.le_refl _, rfl⟩
        exact recorded.start started
          (reads_of_write b (by rw [running]; rfl)) (by rw [storedStatus_write_job, running])
          (by rwa [requests_write_aside rfl]) none
      · exact recorded.learn_one (.holds _ new) (reads_of_write b rfl) rfl
    · exact recorded.learn_one _ trivial rfl
  · exact recorded

theorem step_update (allowed : allowsUpdate jid s place item rev)
    (yields : Regime.anything.Yields (.update place item rev) b reply b') :
    Fanned jid b' (before ++ learnsUpdate jid s place item reply :: after) := by
  obtain ⟨key, rfl, named, ours⟩ := allowed
  obtain ⟨⟨refused, rfl⟩, rfl⟩ | ⟨answer, ⟨last, found, same⟩, rfl⟩ :=
    yields.guarded (Op.guarded_update _ _ _)
  · rwa [learnsUpdate_error]
  by_cases here : key = jid
  · subst here
    obtain ⟨new, rfl, follows⟩ := ours rfl
    obtain ⟨_, ⟨⟩, id⟩ := named.1 rfl
    -- the record that is replaced is the last one under the key
    obtain ⟨stored, value⟩ := isSome_iff_exists.mp (fanned.kept last found)
    have held : b.get (.jobs key) = some ⟨stored, rev⟩ :=
      Bucket.get_eq_some_iff.mpr (by rw [found, ← value, ← same])
    obtain ⟨old, rfl, -⟩ := (fanned.named (Bucket.logged_of_get held)).1 rfl
    have knows := fanned.knows s (by simp)
    obtain rfl | ⟨_, rfl, follows⟩ | ⟨j, left, rfl, rfl, terminal⟩ := follows
    · obtain ⟨_, -, never⟩ := knows.2 last found same
      exact never.elim
    · obtain ⟨_, read, rfl⟩ := knows.2 last found same
      cases value.symm.trans read
      exact fanned.step_replace held id follows (.inl ⟨rev, rfl⟩) answer
    · obtain ⟨_, read, live⟩ := knows.2 last found same
      cases value.symm.trans read
      exact fanned.step_replace held id (.inr (.inr ⟨live, terminal⟩)) (.inr terminal) answer
  · have aside : Fanned jid (b.write (.jobs key) (some item)) (before ++ s :: after) := by
      refine fanned.aside (by simpa using here) rfl ?_
      rintro key' item' ⟨⟩ ⟨⟩
      exact named
    obtain rfl | ⟨refused, rfl⟩ := answer
    · obtain learned | learned := learnsUpdate_other s item here <;> rw [learned]
      · exact aside.learn_one (.foreign _) (reads_of_other (by simpa using here) _) rfl
      · exact aside
    · rwa [learnsUpdate_error]

theorem step_delete {reply : Except Refusal Unit}
    (other : key ≠ jid)
    (yields : Regime.anything.Yields (.delete (.jobs key)) b reply b') :
    Fanned jid b' (before ++ s :: after) := by
  obtain rfl | rfl := yields.delete
  · exact fanned
  · exact fanned.aside (by simpa using other) rfl (by simp)

end

end Fanned

theorem monitor_keeps : (monitor jid).Keeps .anything (Fanned jid) where
  step {b b' before after s ρ op reply} fanned allowed yields := by
    cases op with
    | get place => exact fanned.step_get yields
    | keys =>
      obtain rfl := yields.read rfl
      exact ⟨trivial, fanned⟩
    | put place item => exact ⟨trivial, fanned.step_put allowed yields⟩
    | create place item =>
      refine ⟨?_, fanned.step_create allowed yields⟩
      rintro rev rfl
      obtain ⟨⟨refused, ⟨⟩⟩, -⟩ | ⟨same | ⟨refused, ⟨⟩⟩, -⟩ :=
        yields.guarded (Op.guarded_create _ _)
      cases same
      exact Nat.succ_pos _
    | update place item rev =>
      refine ⟨?_, fanned.step_update allowed yields⟩
      rintro rev' rfl
      obtain ⟨⟨refused, ⟨⟩⟩, -⟩ | ⟨same | ⟨refused, ⟨⟩⟩, -⟩ :=
        yields.guarded (Op.guarded_update _ _ _)
      cases same
      exact Nat.succ_pos _
    | delete place =>
      obtain ⟨key, rfl, other⟩ := allowed
      exact ⟨trivial, fanned.step_delete other yields⟩
  ends {b before after s tasks known} fanned hands := by
    cases hands with
    | nothing => exact fanned.learn [s] [] (by simp) (by simp) (by simp)
    | visit scanning misses keys => exact fanned.learn_one _ trivial rfl
    | watch course watches => exact fanned
    | both course watches scanning misses keys =>
      refine fanned.learn [s] [s, .idle] ?_ (by simp [countP_cons, Stage.isFans]) ?_
      · simpa [Knows] using fanned.knows s (by simp)
      · intro j left member
        obtain rfl : .fans j left = s := by simpa using member
        exact fanned.fanning (by simp)
  arrive {b known} fanned := by
    have before : Fanned jid b ([] ++ ([] ++ known)) := fanned
    exact before.learn [] [.idle] (by simp [Knows]) (by simp [Stage.isFans]) (by simp)
  crash {b before after s} fanned := fanned.learn [s] [] (by simp) (by simp) (by simp)

end Zester.Jobs

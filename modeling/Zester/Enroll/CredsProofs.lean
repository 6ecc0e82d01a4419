import Zester.Enroll.LifecycleProofs
import Zester.Enroll.Creds

/-! Credentials are handed out once, and only for an issue that was stored while the record
was approved. The reply itself may come later than a revocation. -/
namespace Zester.Enroll
open Program List

variable {id : String}
variable {request : Request}

def Request.role : Request → Role
  | .call made _ => made.role
  | .creds _ id _ _ _ =>
    { ksuid? := none
      creates := fun _ => False
      changes := fun r r' => SameAdmission r r' ∧ r.id = id ∧ r'.state = .issued }

namespace Request

theorem role_ksuid? (request : Request) : request.role.ksuid? = request.ksuid? := by
  cases request <;> rfl

theorem role_changes (changes : request.role.changes r r') : SameAdmission r r' := by
  cases request <;> exact changes.1

theorem creates_pending (own : request.role.ksuid? = some ksuid)
    (creates : request.role.creates r) : r.state = .pending := by
  cases request with
  | creds issuer id authHeader now stamp => exact creates.elim
  | call made direct =>
    cases made with
    | enroll checks req origin => exact creates
    | supersede old newRec origin => cases direct
    | _ => cases own

theorem changes_unforced (unforced : request.forces = false) (changes : request.role.changes r r')
    (approved : r'.state = .approved) : r.trustMismatch = false := by
  cases request with
  | creds issuer id authHeader now stamp =>
    obtain ⟨-, -, issued⟩ := changes
    cases issued.symm.trans approved
  | call made direct =>
    obtain ⟨-, decided⟩ := changes
    cases decision : made.decision with
    | none =>
      simp only [decision] at decided
      cases decided.symm.trans approved
    | some decision' =>
      obtain ⟨id, target⟩ := decision'
      simp only [decision] at decided
      obtain ⟨-, reached, cleared⟩ := decided
      exact cleared (reached.symm.trans approved) unforced

end Request

/-- What a write may do to the states of one record. -/
inductive Effect (role : Role) (b b' : Bucket String Stored) (id : String) : Prop where
  | unchanged (path : states b' id = states b id)
  | created (fresh : states b id = []) (path : states b' id = [.pending])
  | changed {r r' : Record} {revision : Nat} (held : b.get id = some ⟨.record r, revision⟩)
      (changes : role.changes r r') (path : states b' id = states b id ++ [r'.state])

/-- Every record started as a pending one and went through its life cycle. -/
structure Issuable (b : Bucket String Stored) : Prop where
  wellKept : WellKept b
  first : ∀ id, states b id = [] ∨ ∃ rest, states b id = .pending :: rest

namespace Issuable

theorem empty : Issuable .empty := ⟨.empty, fun _ => .inl rfl⟩

theorem of_effect (issuable : Issuable b) (wellKept : WellKept b')
    (effect : ∀ id, Effect role b b' id) : Issuable b' := by
  refine ⟨wellKept, fun id => ?_⟩
  cases effect id with
  | unchanged path => exact path ▸ issuable.first id
  | created _ path => exact .inr ⟨[], path⟩
  | changed held _ path =>
    obtain ⟨before, read⟩ := states_of_get held
    obtain none | ⟨rest, first⟩ := issuable.first id
    · rw [read] at none
      simp at none
    · rw [path, first]
      exact .inr ⟨_, rfl⟩

/-- An issue comes after an approval and before any revocation. -/
theorem issued_after_approval (issuable : Issuable b) (issued : .issued ∈ states b id) :
    ∃ before after, states b id = before ++ .issued :: after ∧ .approved ∈ before ∧
      .revoked ∉ before := by
  obtain ⟨before, after, path⟩ := append_of_mem issued
  have lifecycle := issuable.wellKept.lifecycle id
  rw [path] at lifecycle
  refine ⟨before, after, path, ?_, ?_⟩
  · cases last : before.getLast? with
    | none =>
      rw [getLast?_eq_none_iff] at last
      subst last
      obtain none | ⟨rest, first⟩ := issuable.first id
      · cases path.symm.trans none
      · cases path.symm.trans first
    | some previous =>
      have allowed := (isChain_append.mp lifecycle).2.2 previous last .issued rfl
      have approved : previous = .approved := by
        cases previous <;> first | rfl | cases allowed
      exact approved ▸ mem_of_getLast? last
  · intro revoked
    obtain ⟨start, rest, split⟩ := append_of_mem revoked
    rw [split, append_assoc, cons_append] at lifecycle
    have nothing := lifecycle.terminal rfl
    simp at nothing

end Issuable

/-- Every request keeps to its role. -/
def issuance (requests : Nat → Request) : Discipline Nat String Stored where
  regime := .anything
  inv := Issuable
  guar i b b' := (∀ ksuid, (requests i).role.ksuid? ≠ some ksuid →
      Unwritten b (enrollID ksuid) → Unwritten b' (enrollID ksuid)) ∧
    ∀ id, Effect (requests i).role b b' id

theorem Effect.of_writes (writes : Writes regime inv request.role b b') (id : String) :
    Effect request.role b b' id := by
  cases writes with
  | @decided key r r' revision held changes =>
    by_cases here : id = key
    · subst here
      exact .changed held changes (states_write_record b id r')
    · exact .unchanged (states_write_ne here)
  | @created r ksuid own _ creates _ unwritten =>
    by_cases here : id = r.id
    · subst here
      have fresh := states_eq_nil unwritten
      refine .created fresh ?_
      rw [states_write_record, fresh, Request.creates_pending own creates]
      rfl
    · exact .unchanged (states_write_ne here)
  | claimed | repointed => exact .unchanged (states_write_id _ _ _ _)
  | withdrawn | released => exact .unchanged (states_delete _ _ _)

theorem issuance_serves : Serves (issuance requests) fun i => (requests i).role where
  typed issuable := issuable.wellKept.typed
  fresh guar := guar.1 _
  writes issuable writes :=
    ⟨⟨fun _ => writes.fresh, .of_writes writes⟩, issuable.of_effect
      (issuable.wellKept.writes
        (fun changes => (Request.role_changes changes).toSameIdentity) writes) (.of_writes writes)⟩

def Won (request : Request) (id : String) (outcome : Outcome) : Prop :=
  request.credsID? = some id ∧ ∃ peelID credsData expiresAt,
    outcome = .creds (.creds peelID credsData expiresAt)

/-- Credentials that are handed out were marked as issued. -/
def Marked (request : Request) (b : Bucket String Stored) (outcome : Outcome) : Prop :=
  ∀ id, Won request id outcome → .issued ∈ states b id

theorem creds_spec (asked : requests i = .creds issuer id authHeader now stamp)
    (issuable : Issuable b) :
    (issuance requests).Ensures i (fun b' reply => ∀ peelID credsData expiresAt,
      reply = .creds peelID credsData expiresAt → .issued ∈ states b' id) b
      (handleCreds texts issuer id authHeader now stamp) := by
  have refused : ∀ {b₁ status message}, (issuance requests).Ensures i
      (fun b' reply => ∀ peelID credsData expiresAt,
        reply = .creds peelID credsData expiresAt → .issued ∈ states b' id) b₁
      (.done (CredsReply.error status message)) := by
    intro b₁ status message b₂ _ peelID credsData expiresAt same
    cases same
  unfold handleCreds
  split
  · exact refused
  refine .bind issuable (get_spec issuance_serves id) ?_
  rintro b₁ (text | rec) - issuable₁ -
  · exact refused
  dsimp only
  split
  · exact refused
  split
  · exact refused
  split
  · exact refused
  rename_i creds _
  refine .bind issuable₁ (transition_spec issuance_serves stamp (fun _ => rfl) ?_ issuable₁) ?_
  · intro r named _
    rw [asked]
    exact ⟨⟨⟨rfl, rfl, rfl⟩, rfl⟩, named, rfl⟩
  · rintro b₂ (text | answer) - _ stored
    · exact refused
    · intro b₃ around₃ peelID credsData expiresAt _
      obtain ⟨r, logged, state⟩ := stored answer rfl
      exact mem_states.mpr ⟨r, logged.mono around₃.later, state⟩

theorem request_spec (distinct : DistinctRequests requests) (issuable : Issuable b)
    (unwritten : ∀ ksuid, Unwritten b (enrollID ksuid)) :
    (issuance requests).Ensures i (Marked (requests i)) b ((requests i).program texts) := by
  cases asked : requests i with
  | call made direct =>
    have own : ∀ i j ksuid, (requests i).role.ksuid? = some ksuid →
        (requests j).role.ksuid? = some ksuid → i = j := by
      intro i j ksuid
      rw [Request.role_ksuid?, Request.role_ksuid?]
      exact distinct i j ksuid
    refine .bind issuable (call_spec issuance_serves own ?_ issuable unwritten) ?_
    · rw [asked]
      rfl
    · rintro b₁ result - _ - b₂ _ id ⟨other, -⟩
      cases other
  | creds issuer id authHeader now stamp =>
    refine .bind issuable (creds_spec asked issuable) ?_
    rintro b₁ reply - _ marked b₂ around₂ id' ⟨same, peelID, credsData, expiresAt, handed⟩
    cases same
    cases handed
    obtain ⟨r, logged, state⟩ := mem_states.mp (marked peelID credsData expiresAt rfl)
    exact mem_states.mpr ⟨r, logged.mono around₂.later, state⟩

/-- The record is written as an issued one, for a request of its credentials. -/
def Issues (request : Request) (id : String) {ρ : Type} (op : Op String Stored ρ)
    (reply : Except Refusal ρ) : Prop :=
  request.credsID? = some id ∧ (∃ key r, op.Stores key (.record r) ∧ r.state = .issued) ∧
    ∃ n, reply = .ok n

theorem creds_pivots (issuer : Issuer) (authHeader : String) (now stamp : Nat) :
    (handleCreds texts issuer id' authHeader now stamp).Pivots
        (fun reply => Won (.creds issuer id' authHeader now stamp) id (.creds reply))
        (Issues (.creds issuer id' authHeader now stamp) id) ∧
      ¬ (handleCreds texts issuer id' authHeader now stamp).Sure
        fun reply => Won (.creds issuer id' authHeader now stamp) id (.creds reply) := by
  have refused : ∀ {status message}, (done (.error status message) : StoreM CredsReply).Sure
      (fun reply => Won (.creds issuer id' authHeader now stamp) id (.creds reply)) → False := by
    intro status message sure
    obtain ⟨-, _, _, _, same⟩ := sure _ rfl
    cases same
  unfold handleCreds
  split
  · exact ⟨trivial, refused⟩
  refine ⟨?_, fun sure => refused (sure_call.mp sure (.error .notFound))⟩
  intro reply
  match reply with
  | .error _ => exact ⟨(refused · |>.elim), trivial⟩
  | .ok ⟨.id _, _⟩ => exact ⟨(refused · |>.elim), trivial⟩
  | .ok ⟨.record r, revision⟩ =>
    show (Sure _ (if r.state ≠ .approved then _ else _) → _) ∧
      Pivots _ _ (if r.state ≠ .approved then _ else _)
    split
    · exact ⟨(refused · |>.elim), trivial⟩
    split
    · exact ⟨(refused · |>.elim), trivial⟩
    split
    · exact ⟨(refused · |>.elim), trivial⟩
    refine ⟨fun sure => (refused (sure_call.mp sure (.error .notFound))).elim, fun reply => ?_⟩
    match reply with
    | .error _ => exact ⟨(refused · |>.elim), trivial⟩
    | .ok ⟨.id _, _⟩ => exact ⟨(refused · |>.elim), trivial⟩
    | .ok ⟨.record r, revision⟩ =>
      show (Sure _ ((if r.state.canTransitionTo .issued then _ else _) >>= _) → _) ∧
        Pivots _ _ ((if r.state.canTransitionTo .issued then _ else _) >>= _)
      split
      · refine ⟨fun sure => (refused (sure_call.mp sure (.error .notFound))).elim, fun reply => ?_⟩
        match reply with
        | .error _ => exact ⟨(refused · |>.elim), trivial⟩
        | .ok revision =>
          refine ⟨fun sure => .inr ?_, trivial⟩
          exact ⟨(sure _ rfl).1, ⟨_, _, ⟨rfl, rfl⟩, rfl⟩, revision, rfl⟩
      · exact ⟨(refused · |>.elim), trivial⟩

theorem request_pivots (request : Request) (id : String) :
    (request.program texts).Pivots (Won request id) (Issues request id) ∧
      ¬ (request.program texts).Sure (Won request id) := by
  cases request with
  | call made direct =>
    have never : ∀ outcome, ((Request.call made direct).program texts).MayReturn outcome →
        ¬ Won (.call made direct) id outcome := by
      rintro outcome - ⟨other, -⟩
      cases other
    obtain ⟨outcome, returned⟩ := exists_mayReturn ((Request.call made direct).program texts)
    exact ⟨.of_never never, fun sure => never outcome returned (sure outcome returned)⟩
  | creds issuer id' authHeader now stamp =>
    obtain ⟨pivots, unsure⟩ := creds_pivots issuer authHeader now stamp
    exact ⟨pivots.map, fun sure => unsure (sure_map.mp sure)⟩

theorem Desk.Reaches.system {start : Desk} (run : start.Reaches regime desk) :
    start.system.Reaches regime desk.system := by
  induction run with
  | refl => exact .refl
  | tail _ last ih =>
    cases last with
    | work moves => exact ih.tail moves
    | send _ _ => exact ih

theorem Desk.works {sent : List Sent} (run : s.Reaches regime s') :
    (Desk.mk s sent).Reaches regime ⟨s', sent⟩ :=
  run.lift (fun s => Desk.mk s sent) fun _ _ moves => Desk.Moves.work moves

section
variable (distinct : DistinctRequests requests)
    (run : (frontDesk texts requests).system.Reaches .anything s)
include distinct run

theorem requests_hold :
    (issuance requests).Holds (fun i => Marked (requests i)) s := by
  refine Discipline.Holds.reaches (d := issuance requests) run ⟨Issuable.empty, fun i => ?_⟩
  exact request_spec distinct Issuable.empty fun _ _ => Bucket.not_logged_empty

/-- The record of an enrollment is marked as issued for one request only. -/
theorem one_winner
    (one : s.programs i = .done first) (wins : Won (requests i) id first)
    (two : s.programs j = .done second) (wins' : Won (requests j) id second) : i = j := by
  have sure : ∀ {i outcome}, s.programs i = .done outcome → Won (requests i) id outcome →
      (s.programs i).Sure (Won (requests i) id) := by
    intro i outcome finished wins
    rw [finished]
    rintro _ rfl
    exact wins
  refine (requests_hold distinct .refl).one_winner (fun i => (request_pivots (requests i) id).1) run
    (fun b => .issued ∈ states b id) ?_ ?_ (fun i => (request_pivots (requests i) id).2)
    (sure one wins) (sure two wins')
  · intro i b b' ρ op reply issuable issuable' keeps yields issues
    obtain ⟨asks, ⟨key, r, stores, issued⟩, n, rfl⟩ := issues
    obtain rfl := yields.stored stores
    have path := states_write_record b key r
    rw [issued] at path
    obtain same | ⟨⟨-, effect⟩, -⟩ := keeps
    · rw [same] at path
      simp at path
    cases effect key with
    | unchanged unchanged =>
      rw [unchanged] at path
      simp at path
    | created fresh created =>
      rw [created, fresh] at path
      cases path
    | @changed old new revision held changes _ =>
      have own : old.id = id := by
        cases asked : requests i with
        | call made direct =>
          rw [asked] at asks
          cases asks
        | creds issuer id' authHeader now stamp =>
          rw [asked] at asks changes
          cases asks
          exact changes.2.1
      obtain rfl : key = id :=
        (issuable.wellKept.typed.id (Bucket.logged_of_get held)).symm.trans own
      have once := (issuable'.wellKept.lifecycle key).nodup
      refine ⟨fun before => ?_, by simp [path]⟩
      rw [path] at once
      exact (nodup_append.mp once).2.2 .issued before .issued (by simp) rfl
  · intro b b' later issued
    obtain ⟨r, logged, same⟩ := mem_states.mp issued
    exact mem_states.mpr ⟨r, logged.mono later, same⟩

end

/-- What is known of the replies that were sent. -/
structure Posted (requests : Nat → Request) (desk : Desk) : Prop where
  once : (desk.sent.map Sent.request).Nodup
  finished : ∀ e ∈ desk.sent, desk.system.programs e.request = .done (.creds e.reply)
  stored :
    ∀ e ∈ desk.sent, Issuable e.bucket ∧ Marked (requests e.request) e.bucket (.creds e.reply)

theorem finished_moves {s s' : System Nat String Stored fun _ => Outcome}
    (moves : s.Moves regime s') (finished : s.programs i = .done outcome) :
    s'.programs i = .done outcome := by
  cases moves with
  | @step j b' p' step =>
    by_cases same : i = j
    · subst same
      rw [finished] at step
      cases step
    · simpa [Function.update_of_ne same] using finished

theorem desk_posted (distinct : DistinctRequests requests)
    (run : (frontDesk texts requests).Reaches .anything desk) : Posted requests desk := by
  induction run with
  | refl =>
    constructor
    · exact nodup_nil
    · rintro e ⟨⟩
    · rintro e ⟨⟩
  | @tail before _ first last ih =>
    cases last with
    | work moves =>
      exact ⟨ih.once, fun e member => finished_moves moves (ih.finished e member), ih.stored⟩
    | @send i reply finished unsent =>
      have holds := requests_hold distinct (Desk.Reaches.system first)
      constructor
      · refine nodup_cons.mpr ⟨fun member => ?_, ih.once⟩
        obtain ⟨earlier, sent, same⟩ := mem_map.mp member
        exact unsent earlier sent same
      · exact forall_mem_cons.mpr ⟨finished, ih.finished⟩
      · exact forall_mem_cons.mpr ⟨⟨holds.1, holds.result finished⟩, ih.stored⟩

theorem handsOut_won (hands : handsOut requests id e = true) :
    Won (requests e.request) id (.creds e.reply) := by
  obtain ⟨request, reply, bucket⟩ := e
  cases reply with
  | error status message => cases hands
  | creds peelID credsData expiresAt =>
    exact ⟨by simpa [handsOut] using hands, peelID, credsData, expiresAt, rfl⟩

/-- Over every interleaving of the requests, the credentials of an enrollment are sent in at
most one reply, and only after the record was approved and then marked as issued, before
any revocation; without force no flagged record is approved. -/
theorem credentials_handed_out_once (texts : Texts) (requests : Nat → Request)
    (distinct : DistinctRequests requests) {desk : Desk}
    (run : (frontDesk texts requests).Reaches .anything desk) :
    (∀ id, (desk.sent.filter (handsOut requests id)).length ≤ 1) ∧
    (∀ id, ∀ e ∈ desk.sent, handsOut requests id e = true →
      ∃ before after, states e.bucket id = before ++ .issued :: after ∧
        .approved ∈ before ∧ .revoked ∉ before) ∧
    (∀ i b' p' id r revision, (requests i).forces = false →
      Regime.anything.Step (desk.system.bucket, desk.system.programs i) (b', p') →
      desk.system.bucket.get id = some ⟨.record r, revision⟩ → r.trustMismatch = true →
      states b' id ≠ states desk.system.bucket id ++ [.approved]) := by
  have posted := desk_posted distinct run
  refine ⟨fun id => ?_, fun id e member hands => ?_, ?_⟩
  · -- all replies that hand out these credentials belong to the same request
    have same : ∀ e ∈ desk.sent.filter (handsOut requests id),
        ∀ e' ∈ desk.sent.filter (handsOut requests id), e.request = e'.request := by
      intro e member e' member'
      obtain ⟨sent, hands⟩ := mem_filter.mp member
      obtain ⟨sent', hands'⟩ := mem_filter.mp member'
      exact one_winner distinct run.system (posted.finished e sent) (handsOut_won hands)
        (posted.finished e' sent') (handsOut_won hands')
    have once : ((desk.sent.filter (handsOut requests id)).map Sent.request).Nodup :=
      posted.once.sublist (filter_sublist.map _)
    cases sent : desk.sent.filter (handsOut requests id) with
    | nil => simp
    | cons e rest =>
      cases rest with
      | nil => simp
      | cons e' rest =>
        rw [sent] at same once
        have twice := same e (by simp) e' (by simp)
        simp [twice] at once
  · obtain ⟨issuable, marked⟩ := posted.stored e member
    exact issuable.issued_after_approval (marked id (handsOut_won hands))
  · intro i b' p' id r revision unforced step held flagged approved
    have holds := requests_hold distinct run.system
    obtain ⟨keeps, -⟩ := (holds.2 i).step holds.1 step
    obtain rfl | ⟨⟨-, effect⟩, -⟩ := keeps
    · simp at approved
    cases effect id with
    | unchanged path =>
      rw [path] at approved
      simp at approved
    | created fresh _ =>
      obtain ⟨before, read⟩ := states_of_get held
      rw [read] at fresh
      simp at fresh
    | @changed old new revision' held' changes path =>
      cases held.symm.trans held'
      have reached : new.state = .approved := by
        rw [path] at approved
        simpa using approved
      have cleared := Request.changes_unforced unforced changes reached
      cases flagged.symm.trans cleared

def sampleIssuer : Issuer where
  verify _ _ _ := .ok ()
  issue peelID _ := .ok ⟨peelID ++ " may connect", 100⟩
  encodeJWTForTransport jwt := jwt
  formatTime := toString

def lateReply : Nat → Request
  | 0 => .call (.enroll sampleChecks (sampleRequest "A") (sampleOrigin "1" 1)) rfl
  | 1 => .call (.approve (enrollID "1") "operator" 2 2) rfl
  | 2 => .creds sampleIssuer (enrollID "1") "Nkey A:signature" 3 3
  | _ => .call (.revoke (enrollID "1") "operator" "lost" 4 4) rfl

theorem lateReply_distinct : DistinctRequests lateReply := by
  have first : ∀ {i ksuid}, (lateReply i).ksuid? = some ksuid → i = 0 := by
    intro i ksuid own
    match i with
    | 0 => rfl
    | 1 | 2 | _ + 3 => cases own
  intro i j ksuid one two
  rw [first one, first two]

/-- The revocation is stored after the record was marked and before the reply is sent. -/
def lateReplySystem : System Nat String Stored fun _ => Outcome :=
  (frontDesk sampleTexts lateReply).system.play (served [0, 0, 0, 1, 1, 2, 2, 2, 3, 3])

def lateReplyDesk : Desk :=
  ⟨lateReplySystem, [⟨2, .creds "web" "web may connect" "100", lateReplySystem.bucket⟩]⟩

theorem lateReply_run : (frontDesk sampleTexts lateReply).Reaches .anything lateReplyDesk := by
  have works : (frontDesk sampleTexts lateReply).Reaches .anything ⟨lateReplySystem, []⟩ :=
    Desk.works (System.play_reaches (fun _ _ => trivial) _ _
      (System.permitted_of (fun _ _ => trivial) _ _))
  have unsent : ∀ earlier ∈ ([] : List Sent), earlier.request ≠ 2 := by
    rintro earlier ⟨⟩
  exact works.tail (.send rfl unsent)

theorem credentials_handed_out_once_late :
    (lateReplyDesk.sent.filter (handsOut lateReply (enrollID "1"))).length = 1 ∧
      (lateReplyDesk.sent.filter (handsOut lateReply (enrollID "1"))).length ≤ 1 :=
  ⟨rfl, (credentials_handed_out_once sampleTexts lateReply lateReply_distinct lateReply_run).1 _⟩

/-- Credentials can be sent after the revocation was stored. -/
theorem credentials_sent_after_revocation :
    DistinctRequests lateReply ∧
      (frontDesk sampleTexts lateReply).Reaches .anything lateReplyDesk ∧
      ∃ e ∈ lateReplyDesk.sent, handsOut lateReply (enrollID "1") e = true ∧
        states e.bucket (enrollID "1") = [.pending, .approved, .issued, .revoked] :=
  ⟨lateReply_distinct, lateReply_run, _, mem_singleton_self _, rfl, rfl⟩

end Zester.Enroll

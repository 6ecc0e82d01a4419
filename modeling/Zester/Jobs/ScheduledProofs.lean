import Zester.Lib.Contract
import Zester.Auth.Grants
import Zester.Reactor.IdentityProofs
import Zester.Jobs.Scheduled

/-! Whose records and returns the handler of scheduled results writes. A peel chooses the job ID of
its results freely, so it can name a job of the masters or one that the reactor is about to
dispatch. -/
namespace Zester.Jobs
open Subject
open Reactor (Reaction deriveJID)

/-- What belongs to a job: its record, its index entry and the returns of its peels. -/
def Belongs (jid : String) : Shelf → Prop
  | .jobs key => key = jid ∨ key = activeJobKey jid
  | .returns key => ∃ peel, key = jid ++ "." ++ peel

/-- A return is stored under the name of the peel and for it. -/
def OwnName (peel : String) : Shelf → Paper → Prop
  | .returns key, paper => (tokens key).getLast? = some peel.toList ∧
      ∃ r, paper = .answer r ∧ r.peelID = peel
  | .jobs _, _ => True

/-- A write that belongs to no reserved job and is under the name of the peel. -/
def InLane (reserved : List String) (peel : String) (place : Shelf) (value : Option Paper) : Prop :=
  (∀ jid ∈ reserved, ¬ Belongs jid place) ∧ ∀ paper, value = some paper → OwnName peel place paper

/-- One handler, whose own writes are the ones that count, among any other writers. -/
def lane (reserved : List String) (peel : String) : Discipline Bool Shelf Paper where
  regime := .anything
  inv _ := True
  guar self b b' :=
    self = true → ∀ place value, b' = b.write place value → InLane reserved peel place value

/-- What comes to the masters, one after the other. -/
inductive Arrival where
  /-- A master dispatches a job. -/
  | dispatch (j : Job)
  /-- The reactor dispatches the job of a reaction. -/
  | reaction (r : Reaction)
  /-- A peel publishes a scheduled result. -/
  | scheduled (peel : String) (msg : Delivery)

section
variable (sha256Hex : String → String)

def reactionJID (r : Reaction) : String := deriveJID sha256Hex r.origin r.ev.id r.ruleRef r.blockID

/-- The jobs that were dispatched before, and those of the reactor also after. -/
def reserved (before after : List Arrival) : List String :=
  (before.filterMap fun
    | .dispatch j => some j.jid
    | .reaction r => some (reactionJID sha256Hex r)
    | .scheduled _ _ => none) ++
  after.filterMap fun
    | .reaction r => some (reactionJID sha256Hex r)
    | .dispatch _ | .scheduled _ _ => none

/-- Whatever the buckets hold and answer, and whoever else writes to them. -/
def StaysInLane (arrivals : List Arrival) : Prop :=
  ∀ before peel msg after, arrivals = before ++ .scheduled peel msg :: after → ∀ desk b,
    (lane (reserved sha256Hex before after) peel).Ensures true (fun _ _ => True) b
      (consumeScheduledResult desk msg)

end

/-- The credentials of the peel let it publish the message, and the consumer gets it. -/
structure Published (accountPub peel : String) (msg : Delivery) : Prop where
  valid : Enroll.validatePeelID peel = .ok ()
  filtered : isMatch jobScheduleWildcard msg.subject = true
  granted :
    ∃ grant ∈ (Auth.peelUserJWTOptions peel accountPub).allowPub, isMatch grant msg.subject = true

/-- The job ID of a message that is not dropped for itself. -/
def Delivery.jid? (msg : Delivery) : Option String :=
  match msg.payload with
  | none => none
  | some res =>
    if some res.jid.toList = (tokens msg.subject)[2]? ∧ replayable res.jid = true ∧
        res.module ≠ "" then
      some res.jid
    else none

section
variable {msg : Delivery}

theorem tokens_of_filtered (filtered : isMatch jobScheduleWildcard msg.subject = true) :
    ∃ jid peel, tokens msg.subject =
      ["zester".toList, "job".toList, jid, "schedule".toList, peel] := by
  have pattern : tokens jobScheduleWildcard =
      ["zester".toList, "job".toList, ['*'], "schedule".toList, ['*']] := by decide
  rw [isMatch, pattern, covers_iff (by decide)] at filtered
  simp only [List.forall₂_cons_left_iff, List.forall₂_nil_left_iff] at filtered
  obtain ⟨zester, _, first,
    ⟨job, _, second, ⟨jid, _, -, ⟨schedule, _, fourth, ⟨peel, _, -, rfl, rfl⟩, rfl⟩, rfl⟩, rfl⟩,
    split⟩ := filtered
  obtain rfl := first.resolve_left (by decide)
  obtain rfl := second.resolve_left (by decide)
  obtain rfl := fourth.resolve_left (by decide)
  exact ⟨jid, peel, split⟩

theorem Published.tokens (published : Published accountPub peel msg) :
    ∃ jid, tokens msg.subject =
      ["zester".toList, "job".toList, jid, "schedule".toList, peel.toList] := by
  obtain ⟨jid, named, split⟩ := tokens_of_filtered published.filtered
  obtain ⟨grant, granted, match_⟩ := published.granted
  by_cases own : named = peel.toList
  · exact ⟨jid, own ▸ split⟩
  have distinct : peel ≠ String.ofList named := by
    rintro rfl
    simp at own
  have stem : Auth.stem "zester.job." = ["zester".toList, "job".toList] := by decide
  have trails : Auth.Trails (String.ofList named) msg.subject :=
    ⟨"zester.job.", by decide, [jid, "schedule".toList], by rw [split, stem]; simp⟩
  rw [Auth.grant_apart published.valid distinct granted (.inr trails)] at match_
  cases match_

end

section
variable (valid : replayable jid = true)
include valid

theorem dotless_of_replayable : '.' ∉ jid.toList := by
  simp only [replayable, Bool.and_eq_true, Bool.not_eq_true', List.any_eq_false] at valid
  intro dot
  simpa using valid.2 '.' dot

theorem tokens_returnKey (dotless : '.' ∉ peel.toList) :
    tokens (jid ++ "." ++ peel) = [jid.toList, peel.toList] := by
  rw [tokens_append_dot, tokens_of_dotless (dotless_of_replayable valid), tokens_of_dotless dotless]
  rfl

/-- A job ID without dots has its keys to itself. -/
theorem record_belongs (belongs : Belongs other (.jobs jid)) : other = jid := by
  obtain same | index := belongs
  · exact same.symm
  · have dot : '.' ∈ jid.toList := by
      rw [index]
      simp [activeJobKey, activeJobKeyPrefix]
    exact absurd dot (dotless_of_replayable valid)

theorem return_belongs (dotless : '.' ∉ peel.toList)
    (belongs : Belongs other (.returns (jid ++ "." ++ peel))) : other = jid := by
  obtain ⟨peel', same⟩ := belongs
  have split := congrArg tokens same
  rw [tokens_returnKey valid dotless, tokens_append_dot] at split
  have parts : tokens other = [jid.toList] := by
    cases left : tokens other with
    | nil => exact absurd left (tokens_ne_nil other)
    | cons first rest =>
      cases right : tokens peel' with
      | nil => exact absurd right (tokens_ne_nil peel')
      | cons last more =>
        rw [left, right] at split
        cases rest with
        | nil =>
          exact congrArg (fun tokens => [tokens])
            (by simpa using split : jid.toList = first ∧ _).1.symm
        | cons second rest => simp at split
  have whole := congrArg (['.'].intercalate ·) parts
  simp only [tokens, List.intercalate_splitOn] at whole
  exact String.ext (by simpa [List.intercalate] using whole)

end

section
variable {reserved : List String}

/-- A message is dropped for itself, or its result is stored under the name of the peel. -/
theorem consume_cases (published : Published accountPub peel msg) :
    (msg.jid? = none ∧ ∀ desk, consumeScheduledResult desk msg = .done .ack) ∨
      ∃ res, msg.jid? = some res.jid ∧ replayable res.jid = true ∧
        ∀ desk, consumeScheduledResult desk msg =
        (persistScheduledResult desk peel res >>= fun result => .done (.of result)) := by
  obtain ⟨token, split⟩ := published.tokens
  cases payload : msg.payload with
  | none =>
    exact .inl ⟨by simp [Delivery.jid?, payload],
      fun desk => by simp [consumeScheduledResult, split, payload]⟩
  | some res =>
    by_cases named : res.jid.toList = token
    · by_cases valid : replayable res.jid = true
      · by_cases module : res.module = ""
        · exact .inl ⟨by simp [Delivery.jid?, payload, module], fun desk => by
            simp [consumeScheduledResult, handleScheduledResult, split, payload, named, valid,
              module, Verdict.of]⟩
        · exact .inr ⟨res, by simp [Delivery.jid?, payload, module, named, valid,
              split], valid, fun desk => by
            simp [consumeScheduledResult, handleScheduledResult, split, payload, named,
              valid, module]⟩
      · exact .inl ⟨by simp [Delivery.jid?, payload, valid], fun desk => by
          simp [consumeScheduledResult, handleScheduledResult, split, payload, named, valid,
            Verdict.of]⟩
    · exact .inl ⟨by simp [Delivery.jid?, payload, named, split], fun desk => by
        simp [consumeScheduledResult, split, payload, named]⟩

theorem persist_uses (valid : replayable res.jid = true) (dotless : '.' ∉ peel.toList)
    (free : res.jid ∉ reserved) :
    (persistScheduledResult desk peel res).Uses fun op => ∀ message ∈ op.message?,
      InLane reserved peel message.key message.value := by
  have record : ∀ paper, InLane reserved peel (.jobs res.jid) (some paper) :=
    fun _ => ⟨fun jid member belongs => free (record_belongs valid belongs ▸ member),
      fun _ _ => trivial⟩
  have answer : ∀ ts, InLane reserved peel (.returns (res.jid ++ "." ++ peel))
      (some (.answer (res.toReturn peel ts))) := by
    intro ts
    refine ⟨fun jid member belongs => free (return_belongs valid dotless belongs ▸ member), ?_⟩
    rintro _ ⟨⟩
    exact ⟨by rw [tokens_returnKey valid dotless]; rfl, _, rfl, rfl⟩
  unfold persistScheduledResult
  cases desk.jobs with
  | error text => trivial
  | ok opened =>
    refine ⟨by simpa [Op.message?] using record _, fun _ => ?_⟩
    cases desk.returns with
    | error text => trivial
    | ok opened =>
      refine ⟨by simpa [Op.message?] using answer _, fun reply => ?_⟩
      cases reply <;> trivial

theorem lane_ensures
    (uses : p.Uses fun op => ∀ message ∈ op.message?,
      InLane reserved peel message.key message.value) :
    (lane reserved peel).Ensures true (fun _ _ => True) b p := by
  refine .of_uses uses fun op b allowed _ _ => ?_
  obtain same | ⟨message, own, same⟩ := op.perform_eq b
  · exact .inl same
  · refine .inr ⟨fun _ place' value' written => ?_, trivial⟩
    obtain ⟨place, value⟩ := message
    obtain ⟨rfl, rfl⟩ := Bucket.write_inj (same.symm.trans written)
    exact allowed _ own

def openDesk : Desk := ⟨0, .ok (), .ok (), fun _ => ""⟩

theorem not_persist_ensures (taken : res.jid ∈ reserved) :
    ¬ (lane reserved peel).Ensures true (fun _ _ => True) .empty
      (persistScheduledResult openDesk peel res >>= fun result => .done (Verdict.of result)) := by
  intro ensures
  have around := Discipline.Around.refl (d := lane reserved peel) (i := true) (b := .empty) trivial
  -- the record need not be created
  obtain ⟨-, rest⟩ :=
    ensures .empty around trivial (.error (.failed "")) .empty (.inr ⟨trivial, ⟨_, rfl⟩, .inl rfl⟩)
  obtain ⟨keeps, -⟩ := rest .empty around trivial _ _ (.inl ⟨rfl, rfl⟩)
  obtain same | ⟨clean, -⟩ := keeps
  · exact absurd same (Bucket.write_ne _ _ _)
  · exact (clean rfl _ _ rfl).1 res.jid taken ⟨peel, rfl⟩

end

section
variable {sha256Hex : String → String} {accountPub : String} {before : List Arrival}

theorem not_staysInLane (published : Published accountPub peel msg) (accepted : msg.jid? = some jid)
    (taken : jid ∈ reserved sha256Hex before after) :
    ¬ StaysInLane sha256Hex (before ++ .scheduled peel msg :: after) := by
  intro stays
  obtain ⟨dropped, -⟩ | ⟨res, stored, -, program⟩ := consume_cases published
  · cases dropped.symm.trans accepted
  · cases stored.symm.trans accepted
    have ensures := stays before peel msg after rfl openDesk .empty
    rw [program] at ensures
    exact not_persist_ensures taken ensures

end

/-- Scheduled results keep to their lane, if and only if no message that is not dropped for itself
names a job that was dispatched or that the reactor will dispatch. -/
theorem scheduled_results_stay_in_lane_iff (sha256Hex : String → String) (accountPub : String)
    (arrivals : List Arrival)
    (own : ∀ peel msg, .scheduled peel msg ∈ arrivals → Published accountPub peel msg) :
    StaysInLane sha256Hex arrivals ↔
      ∀ before peel msg after, arrivals = before ++ .scheduled peel msg :: after →
      ∀ jid, msg.jid? = some jid → jid ∉ reserved sha256Hex before after := by
  constructor
  · rintro stays before peel msg after rfl jid accepted taken
    exact not_staysInLane (own peel msg (by simp)) accepted taken stays
  · intro free before peel msg after split desk b
    have published := own peel msg (by simp [split])
    obtain ⟨-, program⟩ | ⟨res, stored, valid, program⟩ := consume_cases published
    · rw [program]
      exact fun _ _ => trivial
    · rw [program]
      have dotless := (Enroll.literal_of_validatePeelID published.valid).1
      exact lane_ensures ((persist_uses valid dotless
        (free before peel msg after split _ stored)).bind fun _ => trivial)

def ping (jid peel : String) : Delivery :=
  ⟨Bus.jobScheduleSubject jid peel, some ⟨jid, "heartbeat", "test.ping", .null, true, "", 7⟩⟩

/-- The reaction to the event 2xQ of web-01, and a result of the same peel before it. -/
def pingBefore (jid : String) : List Arrival :=
  [.scheduled "web-01" (ping jid "web-01"), .reaction (Reactor.notification "web-01" "2xQ")]

theorem scheduled_results_stay_in_lane_iff_own :
    Published "ACC" "web-01" (ping "2xS" "web-01") ∧
      StaysInLane Reactor.digest (pingBefore "2xS") := by
  have published : Published "ACC" "web-01" (ping "2xS" "web-01") :=
    ⟨by decide, by decide, "zester.job.*.schedule.web-01", by decide, by decide⟩
  refine ⟨published, (scheduled_results_stay_in_lane_iff Reactor.digest "ACC"
    (pingBefore "2xS") ?_).mpr ?_⟩
  · intro peel msg member
    simp only [pingBefore, List.mem_cons, Arrival.scheduled.injEq, List.not_mem_nil, or_false,
      reduceCtorEq] at member
    obtain ⟨rfl, rfl⟩ := member
    exact published
  · intro before peel msg after split jid accepted
    cases before with
    | nil =>
      simp only [pingBefore, List.nil_append, List.cons.injEq, Arrival.scheduled.injEq] at split
      obtain ⟨⟨rfl, rfl⟩, rfl⟩ := split
      obtain rfl : jid = "2xS" := Option.some.inj (accepted.symm.trans (by decide))
      decide
    | cons first rest =>
      cases rest <;> simp [pingBefore] at split

/-- The peel stores a finished job under the ID that the reaction will have. -/
theorem reaction_preempted :
    Published "ACC" "web-01" (ping "rxn-4e667bbc3bb2041228b355592203fa5f" "web-01") ∧
      ¬ StaysInLane Reactor.digest (pingBefore "rxn-4e667bbc3bb2041228b355592203fa5f") := by
  have published : Published "ACC" "web-01"
      (ping "rxn-4e667bbc3bb2041228b355592203fa5f" "web-01") :=
    ⟨by decide, by decide, "zester.job.*.schedule.web-01", by decide, by decide⟩
  have accepted : (ping "rxn-4e667bbc3bb2041228b355592203fa5f" "web-01").jid? =
      some "rxn-4e667bbc3bb2041228b355592203fa5f" := by decide
  exact ⟨published, @not_staysInLane _ _ [] _ _ _ _ published accepted (by decide)⟩

end Zester.Jobs

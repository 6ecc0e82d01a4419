import Mathlib.Tactic.Linarith
import Zester.Reactor.Engine

/-! How long the chains of derived events can get. Each hop adds one to the depth that the first
event claims to have, and none is made at the cap. -/
namespace Zester.Reactor
open Executor List
variable {e : Engine} {msg : Msg} {configured : Int}

/-- The engine derives one message from the other. -/
def Derives (e : Engine) (msg msg' : Msg) : Prop :=
  ∃ moment subject ev msgID, .emit subject ev msgID ∈ e.react moment msg ∧ msg' = ⟨subject, some ev⟩

/-- Messages that are derived one from the other, in so many hops. -/
inductive Chain (e : Engine) (msg : Msg) : Nat → Msg → Prop where
  | start : Chain e msg 0 msg
  | hop {n : Nat} {middle last : Msg} (before : Chain e msg n middle)
      (derives : Derives e middle last) :
      Chain e msg (n + 1) last

/-- No engine with the cap makes a longer chain of the message. -/
def Bounded (configured : Int) (msg : Msg) : Prop :=
  ∀ e : Engine, e.configuredDepth = configured → ∀ n last, Chain e msg n last → n ≤ e.maxChainDepth

/-- The message passes the checks that concern only itself. -/
def Accepted (msg : Msg) (ev : Event) : Prop :=
  msg.data = some ev ∧ ∃ origin slashTag kind,
    parseSubject msg.subject = .ok (origin, slashTag, kind) ∧ (ev.tag = "" ∨ ev.tag = slashTag)

theorem chainCap_pos (configured : Int) : 0 < chainCap configured := by
  unfold chainCap
  split
  · decide
  · omega

section
variable {x : Executor} {ev : Event}

/-- A dispatch action makes at most one call, for its job. -/
theorem executeDispatch_effects (function target : String) (args : Value) (stateID : String)
    (timeout maxTargets : Int) :
    (x.executeDispatch ev origin ruleRef blockID function target args stateID timeout
      maxTargets).1 = [] ∨
      ∃ targets given, (x.executeDispatch ev origin ruleRef blockID function target args stateID
        timeout maxTargets).1 = [.dispatch
          (x.reactionJob ev origin ruleRef blockID function args targets stateID given)] := by
  unfold executeDispatch
  split
  · split
    · exact .inl rfl
    split
    · exact .inl rfl
    split
    · exact .inl rfl
    dsimp only
    split <;> exact .inr ⟨_, _, rfl⟩
  · exact .inl rfl

theorem executeEnroll_effects (op enrollID requirePeel reason : String) :
    (x.executeEnroll origin op enrollID requirePeel reason).1 = [] ∨
      (x.executeEnroll origin op enrollID requirePeel reason).1 =
      [.enroll op enrollID requirePeel reason] := by
  unfold executeEnroll
  split
  · exact .inl rfl
  split
  · exact .inl rfl
  split
  · exact .inl rfl
  split <;> exact .inr rfl

theorem executeEventSend_effects (tag : String) (data : Entries) :
    (x.executeEventSend ev ruleRef blockID tag data).1 = [] ∨
      (¬ (0 < x.maxChainDepth ∧ x.maxChainDepth ≤ ev.depth + 1) ∧
        (x.executeEventSend ev ruleRef blockID tag data).1 =
          [.emit (masterEventSubject ("reaction." ++ dottedTag tag))
            (x.derivedEvent ev ruleRef blockID tag data)
            (x.derivedEvent ev ruleRef blockID tag data).id]) := by
  unfold executeEventSend
  split
  · exact .inl rfl
  dsimp only
  split
  · exact .inl rfl
  · rename_i below
    refine .inr ⟨below, ?_⟩
    split <;> rfl

theorem execute_effects (made : effect ∈ (x.execute ev origin ruleRef act).1) :
    (∃ function args targets stateID timeout, effect =
        .dispatch (x.reactionJob ev origin ruleRef act.blockID function args targets stateID
          timeout)) ∨
      (∃ op enrollID requirePeel reason, effect = .enroll op enrollID requirePeel reason) ∨
      (∃ subject tag data, effect = .emit subject (x.derivedEvent ev ruleRef act.blockID tag data)
          (x.derivedEvent ev ruleRef act.blockID tag data).id ∧
        ¬ (0 < x.maxChainDepth ∧ x.maxChainDepth ≤ ev.depth + 1)) := by
  obtain ⟨blockID, deed⟩ := act
  cases deed with
  | dispatch function target args stateID timeout maxTargets =>
    obtain none | ⟨targets, given, one⟩ :=
      @executeDispatch_effects x ev origin ruleRef blockID function target
      args stateID timeout maxTargets
    · simp [execute, none] at made
    · simp only [execute, one, mem_singleton] at made
      exact .inl ⟨function, args, targets, stateID, given, made⟩
  | enroll op enrollID requirePeel reason =>
    obtain none | one := @executeEnroll_effects x origin op enrollID requirePeel reason
    · simp [execute, none] at made
    · simp only [execute, one, mem_singleton] at made
      exact .inr (.inl ⟨op, enrollID, requirePeel, reason, made⟩)
  | eventSend tag data =>
    obtain none | ⟨below, one⟩ := @executeEventSend_effects x ev ruleRef blockID tag data
    · simp [execute, none] at made
    · simp only [execute, one, mem_singleton] at made
      exact .inr (.inr ⟨_, tag, data, made, below⟩)
  | log message => cases made

theorem emitted_depth (emits : .emit subject derived msgID ∈ (x.execute ev origin ruleRef act).1)
    (capped : 0 < x.maxChainDepth) :
    derived.depth = ev.depth + 1 ∧ derived.depth < x.maxChainDepth := by
  obtain ⟨_, _, _, _, _, same⟩ | ⟨_, _, _, _, same⟩ | ⟨_, tag, data, same, below⟩ :=
    execute_effects emits
  · cases same
  · cases same
  · cases same
    have deeper : (x.derivedEvent ev ruleRef act.blockID tag data).depth = ev.depth + 1 := rfl
    refine ⟨deeper, ?_⟩
    omega

theorem dispatched_jid (made : .dispatch j ∈ (x.execute ev origin ruleRef act).1) :
    j.jid = deriveJID x.sha256Hex origin ev.id ruleRef act.blockID := by
  obtain ⟨_, _, _, _, _, same⟩ | ⟨_, _, _, _, same⟩ | ⟨_, _, _, same, _⟩ := execute_effects made
  · cases same
    rfl
  · cases same
  · cases same

theorem emitted_id (emits : .emit subject derived msgID ∈ (x.execute ev origin ruleRef act).1) :
    msgID = deriveChainID x.sha256Hex ev.id ruleRef act.blockID := by
  obtain ⟨_, _, _, _, _, same⟩ | ⟨_, _, _, _, same⟩ | ⟨_, _, _, same, _⟩ := execute_effects emits
  · cases same
  · cases same
  · cases same
    rfl

end

/-- An event that reaches the workers is the accepted payload, under the tag of its subject. -/
theorem queued_accepted (queued : e.handleMsg moment msg = .queued w) :
    ∃ payload, Accepted msg payload ∧ w.ev.depth = payload.depth := by
  unfold Engine.handleMsg at queued
  split at queued
  · cases queued
  rename_i origin slashTag kind parsed
  split at queued
  · cases queued
  rename_i payload decoded
  split at queued
  · cases queued
  rename_i honest
  dsimp only at queued
  iterate 6
    split at queued
    · cases queued
  cases queued
  refine ⟨payload, ⟨decoded, origin, slashTag, kind, parsed, ?_⟩, rfl⟩
  rw [not_and_or, not_not, not_not] at honest
  exact honest

theorem derives_depth (derives : Derives e msg msg') :
    ∃ payload derived, Accepted msg payload ∧ msg'.data = some derived ∧
      derived.depth = payload.depth + 1 ∧ derived.depth < e.maxChainDepth := by
  obtain ⟨moment, subject, derived, msgID, emits, rfl⟩ := derives
  unfold Engine.react at emits
  split at emits
  · rename_i queued
    obtain ⟨payload, accepted, depth⟩ := queued_accepted queued
    obtain ⟨rule, -, emits⟩ := mem_flatMap.mp emits
    split at emits
    · cases emits
    split at emits
    · cases emits
    unfold Engine.processRule at emits
    split at emits
    · cases emits
    · cases emits
    · cases emits
    · obtain ⟨act, -, emits⟩ := mem_flatMap.mp emits
      have bounds := emitted_depth emits (chainCap_pos e.configuredDepth)
      exact ⟨payload, derived, accepted, rfl, by rw [bounds.1, depth], bounds.2⟩
  · cases emits

theorem chain_depth (chain : Chain e msg (n + 1) last) :
    ∃ payload derived, Accepted msg payload ∧ last.data = some derived ∧
      derived.depth = payload.depth + (n + 1) ∧ derived.depth < e.maxChainDepth := by
  generalize length : n + 1 = k at chain
  induction chain generalizing n with
  | start => cases length
  | @hop k middle last before derives ih =>
    obtain rfl : n = k := Nat.succ.inj length
    obtain ⟨payload, derived, accepted, decoded, deeper, below⟩ := derives_depth derives
    cases n with
    | zero =>
      cases before with
      | start => exact ⟨payload, derived, accepted, decoded, by simpa using deeper, below⟩
    | succ n =>
      obtain ⟨first, between, accepted', decoded', depth, -⟩ := ih rfl
      obtain rfl : between = payload := Option.some.inj (decoded'.symm.trans accepted.1)
      refine ⟨first, derived, accepted', decoded, ?_, below⟩
      push_cast
      omega

def echoRules : RuleSet where
  rules := [{ ref := "echo", covers := fun _ => true }]
  render _ _ _ := .actions [⟨"again", .eventSend "again" []⟩]

def echo (configured : Int) : Engine where
  configuredDepth := configured
  maxEventAge := 0
  ruleSet := echoRules
  sha256Hex text := text
  seams := ⟨none, none, none, some fun _ _ _ => .ok ()⟩

def quiet : Moment where
  now := 0
  revoked _ := false
  allows _ := true
  queueFull := false
  breakerAllows _ := true
  throttleAllows _ _ := true

def echoSubject : String := "zester.event._master.reaction.again"

theorem echoSubject_parsed :
    parseSubject echoSubject = .ok ("_master", "reaction/again", .master) := by decide

theorem echo_accepted :
    Accepted ⟨echoSubject, some
      (((echo configured).executor quiet).derivedEvent ev ruleRef blockID "again" [])⟩
      (((echo configured).executor quiet).derivedEvent ev ruleRef blockID "again" []) :=
  ⟨rfl, "_master", "reaction/again", .master, echoSubject_parsed, .inr rfl⟩

theorem echo_derives (accepted : Accepted msg payload)
    (below : payload.depth + 1 < chainCap configured) :
    ∃ msg' derived, Derives (echo configured) msg msg' ∧ Accepted msg' derived ∧
      derived.depth = payload.depth + 1 := by
  obtain ⟨decoded, origin, slashTag, kind, parsed, honest⟩ := accepted
  have cap : (echo configured).maxChainDepth = chainCap configured := rfl
  let ev : Event := { payload with tag := slashTag }
  let derived := ((echo configured).executor quiet).derivedEvent ev "echo" "again" "again" []
  have handled : (echo configured).handleMsg quiet msg = .queued ⟨ev, origin, echoRules.rules⟩ := by
    have shallow : ¬ (echo configured).maxChainDepth ≤ payload.depth := by omega
    have known : ¬ (payload.tag ≠ "" ∧ payload.tag ≠ slashTag) := by
      rwa [not_and_or, not_not, not_not]
    rw [Engine.handleMsg, parsed]
    rw [decoded]
    dsimp only
    rw [if_neg known, if_neg (by simp [quiet]), if_neg shallow, if_neg (by simp [quiet]),
      if_neg (by simp [echo])]
    rfl
  have sends : (((echo configured).executor quiet).execute ev origin "echo"
      ⟨"again", .eventSend "again" []⟩).1 = [.emit echoSubject derived derived.id] := by
    have open_ : ¬ (0 < ((echo configured).executor quiet).maxChainDepth ∧
        ((echo configured).executor quiet).maxChainDepth ≤ derived.depth) := by
      rintro ⟨-, deep⟩
      have deeper : derived.depth = payload.depth + 1 := rfl
      have same : ((echo configured).executor quiet).maxChainDepth = chainCap configured := rfl
      omega
    have subject : masterEventSubject ("reaction." ++ dottedTag "again") = echoSubject := by decide
    rw [← subject]
    show (if 0 < _ ∧ _ ≤ derived.depth then
      _ else ([Effect.emit _ derived derived.id], Result.dispatched, none)).1 = _
    rw [if_neg open_]
  refine ⟨⟨echoSubject, some derived⟩, derived, ⟨quiet, echoSubject, derived, derived.id, ?_, rfl⟩,
    echo_accepted, rfl⟩
  rw [Engine.react, handled]
  refine mem_flatMap.mpr ⟨_, mem_singleton.mpr rfl, ?_⟩
  show _ ∈ (echo configured).processRule quiet _ _
  refine mem_flatMap.mpr ⟨_, mem_singleton.mpr rfl, ?_⟩
  rw [sends]
  exact mem_singleton.mpr rfl

theorem echo_chain (accepted : Accepted msg ev) (n : Nat)
    (below : ev.depth + n < chainCap configured) :
    ∃ last derived, Chain (echo configured) msg n last ∧ Accepted last derived ∧
      derived.depth = ev.depth + n := by
  induction n with
  | zero => exact ⟨msg, ev, .start, accepted, by simp⟩
  | succ n ih =>
    push_cast at below
    obtain ⟨last, derived, chain, accepted', depth⟩ := ih (by omega)
    obtain ⟨next, further, derives, accepted'', deeper⟩ :=
      @echo_derives last configured derived accepted' (by omega)
    refine ⟨next, further, .hop chain derives, accepted'', ?_⟩
    push_cast
    omega

/-- An engine can make no longer chain of a message than its cap allows, if and only if the depth
that the message claims is at least -1 (or the message is dropped for what it is). -/
theorem chains_bounded_iff (configured : Int) (msg : Msg) :
    Bounded configured msg ↔ ∀ ev, Accepted msg ev → -1 ≤ ev.depth := by
  constructor
  · intro bounded ev accepted
    by_contra shallow
    have cap := chainCap_pos configured
    obtain ⟨last, -, chain, -⟩ :=
      @echo_chain msg configured ev accepted ((chainCap configured).toNat + 1) (by omega)
    have short : ((((chainCap configured).toNat + 1 : Nat)) : Int) ≤ chainCap configured :=
      bounded (echo configured) rfl _ last chain
    omega
  · intro deep e same n last chain
    cases n with
    | zero =>
      have cap := chainCap_pos e.configuredDepth
      exact le_of_lt cap
    | succ n =>
      obtain ⟨payload, derived, accepted, -, depth, below⟩ := chain_depth chain
      have least := deep payload accepted
      push_cast
      omega

/-- With a cap of three, an event that claims a depth of -5 is followed by seven others. -/
theorem negative_depth_outruns_cap :
    ∃ last, Chain (echo 3) ⟨"zester.event.web-01.send.deploy",
      some ⟨"2xQ", "deploy", [], none, 1, "", -5⟩⟩ 7 last ∧ (echo 3).maxChainDepth = 3 := by
  have accepted : Accepted
      ⟨"zester.event.web-01.send.deploy", some ⟨"2xQ", "deploy", [], none, 1, "", -5⟩⟩
      ⟨"2xQ", "deploy", [], none, 1, "", -5⟩ :=
    ⟨rfl, "web-01", "deploy", .send, by decide, .inr rfl⟩
  obtain ⟨last, -, chain, -⟩ :=
    echo_chain accepted 7 (by decide : (-5 : Int) + (7 : Nat) < chainCap 3)
  exact ⟨last, chain, rfl⟩

end Zester.Reactor

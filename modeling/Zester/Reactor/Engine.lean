import Zester.Reactor.Actions

/-! The engine: the gates that a message has to pass, the guards of the rules, and the reactions.
The storm breaker counts the fires of a rule, the throttle is one of a rule and a source; the clock
counts nanoseconds from the zero time on. -/
namespace Zester.Reactor

structure Rule where
  ref : String
  /-- The compiled pattern. -/
  covers : String → Bool
  /-- The refractory period for a source; 0 stands for the default one. -/
  throttle : Int := 0

/-- What rendering a reaction file and reading its blocks comes to. -/
inductive Rendered where
  | missing
  | failed (text : String)
  | rejected (errors : List String)
  | actions (acts : List Action)

/-- The rules in the order of the top file, and their files with the renderer. -/
structure RuleSet where
  rules : List Rule
  render : String → Event → String → Rendered

def RuleSet.match_ (rs : RuleSet) (key : String) : List Rule := rs.rules.filter (·.covers key)

def defaultMaxChainDepth : Int := 3

/-- The cap that `NewEngine` takes from its configuration. -/
def chainCap (configured : Int) : Int := if configured ≤ 0 then defaultMaxChainDepth else configured

structure Engine where
  /-- `Config.MaxChainDepth`. -/
  configuredDepth : Int
  /-- 0 where the age is not looked at. -/
  maxEventAge : Int
  defaultThrottle : Int := 0
  ruleSet : RuleSet
  sha256Hex : String → String
  seams : Seams

def Engine.maxChainDepth (e : Engine) : Int := chainCap e.configuredDepth

/-- What a message meets besides the rules: the clock, the revoked peels, the rate limiter, the
queue, the breakers and the throttles. -/
structure Moment where
  now : Int
  revoked : String → Bool
  allows : String → Bool
  queueFull : Bool
  breakerAllows : String → Bool
  throttleAllows : String → String → Bool

inductive Drop where
  | malformed
  | decode
  | spoof
  | revoked
  | depth
  | ratelimit
  | stale
  | backpressure
  deriving DecidableEq, Repr

/-- A message of the events stream, with nothing for a payload that cannot be decoded. -/
structure Msg where
  subject : String
  data : Option Event

/-- An event on its way to the workers. -/
structure Work where
  ev : Event
  origin : String
  matched : List Rule

inductive Verdict where
  | dropped (reason : Drop)
  | unmatched
  | delayed
  | queued (work : Work)

def Engine.handleMsg (e : Engine) (moment : Moment) (msg : Msg) : Verdict :=
  match parseSubject msg.subject with
  | .error _ => .dropped .malformed
  | .ok (origin, slashTag, _) =>
    match msg.data with
    | none => .dropped .decode
    | some payload =>
      if payload.tag ≠ "" ∧ payload.tag ≠ slashTag then .dropped .spoof
      else
        let ev := { payload with tag := slashTag }
        if origin ≠ originMaster ∧ origin ≠ originAdmin ∧ moment.revoked origin then
          .dropped .revoked
        else if e.maxChainDepth ≤ ev.depth then .dropped .depth
        else if !moment.allows origin then .dropped .ratelimit
        else if 0 < e.maxEventAge ∧ ev.ts.any (fun ts => e.maxEventAge < moment.now - ts) then
          .dropped .stale
        else
          let matched := e.ruleSet.match_ (matchKey origin slashTag)
          if matched = [] then .unmatched
          else if moment.queueFull then .delayed
          else .queued ⟨ev, origin, matched⟩

def Engine.executor (e : Engine) (moment : Moment) : Executor :=
  ⟨e.sha256Hex, e.seams, e.maxChainDepth, moment.now⟩

def Engine.processRule (e : Engine) (moment : Moment) (w : Work) (rule : Rule) : List Effect :=
  match e.ruleSet.render rule.ref w.ev w.origin with
  | .missing | .failed _ | .rejected _ => []
  | .actions acts =>
    acts.flatMap fun act => ((e.executor moment).execute w.ev w.origin rule.ref act).1

def Engine.process (e : Engine) (moment : Moment) (w : Work) : List Effect :=
  w.matched.flatMap fun rule =>
    if !moment.breakerAllows rule.ref then []
    else if !moment.throttleAllows rule.ref w.origin then []
    else e.processRule moment w rule

/-- All calls that come of one delivery of a message. -/
def Engine.react (e : Engine) (moment : Moment) (msg : Msg) : List Effect :=
  match e.handleMsg moment msg with
  | .queued work => e.process moment work
  | _ => []

def stormWindow : Nat := 60000000000
def defaultStormRate : Nat := 60
def defaultBreakerCooldown : Nat := 300000000000

structure BreakerState where
  fires : List Nat := []
  /-- The zero time while the breaker is closed. -/
  openUntil : Nat := 0
  deriving DecidableEq

structure Breaker where
  stormRate : Nat
  window : Nat
  cooldown : Nat
  rules : String → Option BreakerState

def newBreaker (stormRate cooldown : Int) : Breaker where
  stormRate := if stormRate ≤ 0 then defaultStormRate else stormRate.toNat
  window := stormWindow
  cooldown := if cooldown ≤ 0 then defaultBreakerCooldown else cooldown.toNat
  rules _ := none

namespace Breaker
variable (b : Breaker)

def put (rule : String) (st : BreakerState) : Breaker :=
  { b with rules := Function.update b.rules rule (some st) }

def allow (rule : String) (now : Nat) : Bool × Breaker :=
  match b.rules rule with
  | none => (true, b)
  | some st =>
    if st.openUntil = 0 then (true, b)
    else if now < st.openUntil then (false, b)
    else (true, b.put rule {})

def recordFire (rule : String) (now : Nat) : Breaker :=
  let st := (b.rules rule).getD {}
  -- a fire is kept while it is after the cutoff `now - window`
  let fires := st.fires.filter (fun ts => now < ts + b.window) ++ [now]
  b.put rule
    ⟨fires, if b.stormRate < fires.length ∧ st.openUntil = 0 then now + b.cooldown
      else st.openUntil⟩

def sweep (now : Nat) : Breaker :=
  { b with
    rules := fun rule => (b.rules rule).map fun st =>
      if st.openUntil = 0 ∨ now < st.openUntil then st else {} }

end Breaker

/-- The completed fires by rule and source, the last one first. -/
structure Throttle where
  max : Nat
  order : List (String × Nat)

namespace Throttle
variable (t : Throttle) (rule source : String)

def key : String := rule ++ String.singleton (Char.ofNat 0) ++ source

def allow (period : Int) (now : Nat) : Bool :=
  if period ≤ 0 then true
  else
    match t.order.lookup (key rule source) with
    | none => true
    | some last => period ≤ (now : Int) - last

def record (now : Nat) : Throttle :=
  let moved := (key rule source, now) :: t.order.filter (·.1 ≠ key rule source)
  { t with
    order := if (t.order.lookup (key rule source)).isSome then moved else moved.take t.max }

end Throttle

structure Guards where
  /-- There is no breaker on an engine that was not given one. -/
  breaker : Option Breaker
  throttle : Throttle

/-- What a turn of the loop over the matched rules comes to. -/
inductive Turn where
  | breakerOpen
  | throttled
  | transient
  | completed
  deriving DecidableEq, Repr

namespace Guards
variable (g : Guards)

def breakerAllow (rule : String) (now : Nat) : Bool × Guards :=
  match g.breaker with
  | none => (true, g)
  | some b => ((b.allow rule now).1, { g with breaker := some (b.allow rule now).2 })

/-- A completed fire: the period starts, if there is one, and the breaker counts it. -/
def commit (rule origin : String) (period : Int) (now : Nat) : Guards where
  throttle := if 0 < period then g.throttle.record rule origin now else g.throttle
  breaker := g.breaker.map (·.recordFire rule now)

end Guards

/-- The period of a rule, where 0 stands for the default of the engine. -/
def Engine.period (e : Engine) (rule : Rule) : Int :=
  if rule.throttle = 0 then e.defaultThrottle else rule.throttle

/-- What `processRule` returns: some action failed in a way that may pass. -/
def Engine.fails (e : Engine) (moment : Moment) (w : Work) (rule : Rule) : Bool :=
  match e.ruleSet.render rule.ref w.ev w.origin with
  | .missing | .failed _ | .rejected _ => false
  | .actions acts =>
    acts.any fun act => ((e.executor moment).execute w.ev w.origin rule.ref act).2.2.isSome

/-- One turn of the loop over the matched rules: both guards are asked first, and told only of a
rule that has completed. -/
def Engine.turn (e : Engine) (moment : Moment) (w : Work) (rule : Rule) (asked told : Nat)
    (g : Guards) : Turn × Guards :=
  let (allowed, g) := g.breakerAllow rule.ref asked
  if !allowed then (.breakerOpen, g)
  else if !g.throttle.allow rule.ref w.origin (e.period rule) asked then (.throttled, g)
  else if e.fails moment w rule then (.transient, g)
  else (.completed, g.commit rule.ref w.origin (e.period rule) told)

end Zester.Reactor

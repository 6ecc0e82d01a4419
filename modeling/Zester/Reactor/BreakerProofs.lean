import Zester.Reactor.Engine

/-! A worker that asks the breaker before each reaction, and a sweeper: in no window are there more
fires of a rule than the storm rate and one, and there are none while the breaker is open. -/
namespace Zester.Reactor
open BreakerState List Function

inductive BreakerCall where
  | allow (rule : String)
  | recordFire (rule : String)
  | sweep

/-- A recorded fire, and whether it opened the breaker. -/
structure Fire where
  time : Nat
  opened : Bool

/-- The breaker with what has been asked and told of it. -/
structure Watched where
  breaker : Breaker
  /-- The rule that the worker was last allowed and has not reported since. -/
  allowed : Option String := none
  /-- The fires of each rule, the last one first. -/
  fires : String → List Fire := fun _ => []

namespace Breaker

/-- A rule that the breaker has not seen is as good as a closed one without fires. -/
def state (b : Breaker) (rule : String) : BreakerState := (b.rules rule).getD {}

def opens (b : Breaker) (rule : String) (now : Nat) : Bool :=
  (b.state rule).openUntil = 0 && ((b.recordFire rule now).state rule).openUntil ≠ 0

end Breaker

def Watched.step (w : Watched) (now : Nat) : BreakerCall → Watched
  | .allow rule =>
    let (ok, breaker) := w.breaker.allow rule now
    { w with breaker := breaker, allowed := if ok then some rule else none }
  | .recordFire rule =>
    { breaker := w.breaker.recordFire rule now
      allowed := none
      fires := update w.fires rule (⟨now, w.breaker.opens rule now⟩ :: w.fires rule) }
  | .sweep => { w with breaker := w.breaker.sweep now }

/-- The one worker reports a fire only of the rule that it was last allowed. -/
def Watched.Permits (w : Watched) : BreakerCall → Prop
  | .recordFire rule => w.allowed = some rule
  | .allow _ | .sweep => True

/-- The calls so far, under a clock that does not go back. -/
inductive Watches (b : Breaker) : Nat → Watched → Prop
  | start : Watches b 0 { breaker := b }
  | call {clock now : Nat} {w : Watched} {call : BreakerCall} (before : Watches b clock w)
      (onward : clock ≤ now) (permitted : w.Permits call) : Watches b now (w.step now call)

/-- An open breaker whose cooldown has passed is closed, with a fresh window. -/
def BreakerState.settled (st : BreakerState) (now : Nat) : BreakerState :=
  if st.openUntil = 0 ∨ now < st.openUntil then st else {}

def BreakerState.fired (b : Breaker) (st : BreakerState) (now : Nat) : BreakerState :=
  let fires := st.fires.filter (fun ts => now < ts + b.window) ++ [now]
  ⟨fires, if b.stormRate < fires.length ∧ st.openUntil = 0 then now + b.cooldown else st.openUntil⟩

namespace Breaker
variable (b : Breaker) (rule : String) (now : Nat)

theorem state_put (st : BreakerState) (other : String) :
    (b.put rule st).state other = if other = rule then st else b.state other := by
  by_cases same : other = rule <;> simp [state, put, same]

theorem allow_spec : (b.allow rule now).1 = decide (((b.state rule).settled now).openUntil = 0) ∧
    (∀ other, (b.allow rule now).2.state other =
      if other = rule then (b.state rule).settled now else b.state other) ∧
    ∃ rules, (b.allow rule now).2 = { b with rules := rules } := by
  have unchanged : ∀ other, b.state other = if other = rule then
      b.state rule else b.state other := by
    intro other
    split
    · rename_i same
      rw [same]
    · rfl
  cases held : b.rules rule with
  | none =>
    have fresh : b.state rule = {} := by simp [state, held]
    simp only [allow, held, fresh, settled, true_or, if_true, decide_true, true_and]
    exact ⟨fun other => by rw [← fresh]; exact unchanged other, _, rfl⟩
  | some st =>
    have known : b.state rule = st := by simp [state, held]
    rw [known] at unchanged ⊢
    by_cases closed : st.openUntil = 0
    · simp only [allow, held, closed, settled, true_or, if_true, decide_true, true_and]
      exact ⟨unchanged, _, rfl⟩
    by_cases early : now < st.openUntil
    · simp only [allow, held, closed, early, settled, or_true, if_true, if_false, decide_false,
        true_and]
      exact ⟨unchanged, _, rfl⟩
    · simp only [allow, held, closed, early, settled, or_self, if_false, decide_true, true_and]
      exact ⟨fun other => b.state_put rule {} other, _, rfl⟩

theorem state_sweep : (b.sweep now).state rule = (b.state rule).settled now := by
  cases held : b.rules rule with
  | none | some st => simp [state, sweep, held, settled]

theorem state_recordFire (other : String) : (b.recordFire rule now).state other =
    if other = rule then (b.state rule).fired b now else b.state other :=
  b.state_put rule _ other

end Breaker

/-- What holds of a rule after the calls so far: its state and its fires, the last one first. -/
structure Paced (b : Breaker) (clock : Nat) (st : BreakerState) (log : List Fire) : Prop where
  past : ∀ f ∈ log, f.time ≤ clock
  /-- The breaker has every fire that may still count. -/
  kept : ∀ now, clock ≤ now →
    log.countP (now < ·.time + b.window) ≤ st.fires.countP (now < · + b.window)
  calm : st.openUntil = 0 → st.fires.length ≤ b.stormRate
  resting : st.openUntil ≠ 0 → ∀ f ∈ log, f.time + b.cooldown ≤ st.openUntil
  cooled : st.openUntil = 0 → ∀ f ∈ log, f.opened → f.time + b.cooldown ≤ clock
  spaced : log.Pairwise fun later earlier => earlier.opened → earlier.time + b.cooldown ≤ later.time
  bound : ∀ within : Fire → Bool,
    (∀ f ∈ log, ∀ g ∈ log, within f → within g → f.time < g.time + b.window) →
      log.countP within ≤ b.stormRate + 1

namespace Paced

theorem start : Paced b 0 {} [] := by
  constructor <;> simp

theorem later (paced : Paced b clock st log) (onward : clock ≤ now) : Paced b now st log where
  past f mem := (paced.past f mem).trans onward
  kept n late := paced.kept n (onward.trans late)
  calm := paced.calm
  resting := paced.resting
  cooled closed f mem opened := (paced.cooled closed f mem opened).trans onward
  spaced := paced.spaced
  bound := paced.bound

theorem settled (paced : Paced b now st log) (wide : b.window ≤ b.cooldown) :
    Paced b now (st.settled now) log := by
  unfold BreakerState.settled
  split
  · exact paced
  rename_i elapsed
  obtain ⟨opened, passed⟩ := not_or.mp elapsed
  have rested := paced.resting opened
  refine ⟨paced.past, ?_, fun _ => Nat.zero_le _, by simp, ?_, paced.spaced, paced.bound⟩
  · -- the cooldown is no shorter than the window, so none of the fires can count any more
    intro n late
    have none_ : log.countP (n < ·.time + b.window) = 0 := by
      rw [countP_eq_zero]
      intro f mem
      have := rested f mem
      simp only [decide_eq_true_eq]
      omega
    omega
  · intro _ f mem _
    have := rested f mem
    omega

theorem fired (paced : Paced b now st log) (closed : st.openUntil = 0) (cools : 0 < b.cooldown) :
    Paced b now (st.fired b now)
      (⟨now, decide ((st.fired b now).openUntil ≠ 0)⟩ :: log) := by
  have few := paced.calm closed
  have trimmed := length_filter_le (fun ts => decide (now < ts + b.window)) st.fires
  have opens : (st.fired b now).openUntil =
      if b.stormRate < (st.fired b now).fires.length then now + b.cooldown else 0 := by
    simp [BreakerState.fired, closed]
  have length : (st.fired b now).fires.length =
      (st.fires.filter fun ts => now < ts + b.window).length + 1 := by
    simp [BreakerState.fired]
  have fires : ∀ n, now ≤ n → (st.fired b now).fires.countP (n < · + b.window) =
      st.fires.countP (n < · + b.window) + [now].countP (n < · + b.window) := by
    intro n late
    simp only [BreakerState.fired, countP_append, countP_filter]
    congr 1
    apply countP_congr
    intro ts _
    simp only [Bool.and_eq_true, decide_eq_true_eq, and_iff_left_iff_imp]
    omega
  refine ⟨?_, ?_, ?_, ?_, ?_, ?_, ?_⟩
  · simpa using paced.past
  · intro n late
    rw [fires n late]
    have := paced.kept n late
    simp only [countP_cons, countP_nil]
    omega
  · intro shut
    by_contra many
    rw [opens, if_pos (by omega)] at shut
    omega
  · intro opened f mem
    rw [opens] at opened ⊢
    split at opened
    · rw [if_pos ‹_›]
      have : f.time ≤ now := by
        obtain rfl | mem := mem_cons.mp mem
        · exact le_rfl
        · exact paced.past f mem
      omega
    · contradiction
  · intro shut f mem opened
    obtain rfl | mem := mem_cons.mp mem
    · simp [shut] at opened
    · exact paced.cooled closed f mem opened
  · exact pairwise_cons.mpr ⟨paced.cooled closed, paced.spaced⟩
  · -- where the new fire is within the interval, the others in it are still in its window
    intro within narrow
    have narrow' : ∀ f ∈ log, ∀ g ∈ log, within f → within g → f.time < g.time + b.window :=
      fun f memf g memg => narrow f (mem_cons_of_mem _ memf) g (mem_cons_of_mem _ memg)
    rw [countP_cons]
    split
    · rename_i inside
      have others : log.countP within ≤ log.countP (now < ·.time + b.window) := by
        apply countP_mono_left
        intro f mem within_f
        have := narrow _ mem_cons_self f (mem_cons_of_mem _ mem) inside within_f
        simpa using this
      have counted := paced.kept now le_rfl
      have := countP_le_length (p := fun ts => decide (now < ts + b.window)) (l := st.fires)
      omega
    · exact paced.bound within narrow'

end Paced

/-- What the calls keep, for all rules. -/
structure Watched.Orderly (b : Breaker) (clock : Nat) (w : Watched) : Prop where
  config : ∃ rules, w.breaker = { b with rules := rules }
  paced : ∀ rule, Paced b clock (w.breaker.state rule) (w.fires rule)
  closed : ∀ rule, w.allowed = some rule → (w.breaker.state rule).openUntil = 0

namespace Watched.Orderly
variable {w : Watched}

theorem step (orderly : w.Orderly b clock) (onward : clock ≤ now) (wide : b.window ≤ b.cooldown)
    (cools : 0 < b.cooldown) (permitted : w.Permits call) :
    (w.step now call).Orderly b now := by
  obtain ⟨rules, config⟩ := orderly.config
  have paced := fun rule => (orderly.paced rule).later onward
  cases call with
  | allow rule =>
    obtain ⟨answer, states, rules', kept⟩ := w.breaker.allow_spec rule now
    refine ⟨⟨rules', ?_⟩, ?_, ?_⟩
    · show (w.breaker.allow rule now).2 = _
      rw [kept, config]
    · intro other
      show Paced b now ((w.breaker.allow rule now).2.state other) (w.fires other)
      rw [states]
      split
      · rename_i same
        exact same ▸ (paced rule).settled wide
      · exact paced other
    · intro other allowed
      show ((w.breaker.allow rule now).2.state other).openUntil = 0
      change (if (w.breaker.allow rule now).1 then some rule else none) = some other at allowed
      split at allowed
      · rename_i ok
        cases allowed
        rw [states, if_pos rfl]
        simpa [answer] using ok
      · contradiction
  | recordFire rule =>
    have closed := orderly.closed rule permitted
    have fired : (w.breaker.state rule).fired w.breaker now =
        (w.breaker.state rule).fired b now := by
      rw [config]
      rfl
    refine ⟨?_, ?_, ?_⟩
    · show ∃ rules, w.breaker.put rule _ = _
      rw [config]
      exact ⟨_, rfl⟩
    · intro other
      show Paced b now ((w.breaker.recordFire rule now).state other)
        (update w.fires rule (⟨now, w.breaker.opens rule now⟩ :: w.fires rule) other)
      rw [Breaker.state_recordFire, fired]
      by_cases same : other = rule
      · subst same
        rw [if_pos rfl, update_self, Breaker.opens, Breaker.state_recordFire, if_pos rfl, fired]
        simpa [closed] using (paced other).fired closed cools
      · rw [if_neg same, update_of_ne same]
        exact paced other
    · intro other allowed
      contradiction
  | sweep =>
    refine ⟨?_, ?_, ?_⟩
    · show ∃ rules, w.breaker.sweep now = _
      rw [config]
      exact ⟨_, rfl⟩
    · intro rule
      show Paced b now ((w.breaker.sweep now).state rule) (w.fires rule)
      rw [Breaker.state_sweep]
      exact (paced rule).settled wide
    · intro rule allowed
      show ((w.breaker.sweep now).state rule).openUntil = 0
      have closed := orderly.closed rule allowed
      rw [Breaker.state_sweep, settled, if_pos (.inl closed)]
      exact closed

theorem of_watches (watches : Watches b clock w) (fresh : ∀ rule, b.rules rule = none)
    (wide : b.window ≤ b.cooldown) (cools : 0 < b.cooldown) : w.Orderly b clock := by
  induction watches with
  | start =>
    refine ⟨⟨_, rfl⟩, fun rule => ?_, fun _ none_ => by contradiction⟩
    rw [Breaker.state, fresh]
    exact .start
  | call _ onward permitted ih => exact ih.step onward wide cools permitted

end Watched.Orderly

theorem newBreaker_cools (stormRate cooldown : Int) :
    0 < (newBreaker stormRate cooldown).cooldown := by
  simp only [newBreaker, defaultBreakerCooldown]
  split <;> omega

/-- With one worker and a cooldown no shorter than the window, an interval as long as the window has
at most one fire more than the storm rate, whichever of its ends belongs to it, and a fire that
opens the breaker is followed by none before the cooldown has passed. -/
theorem storm_bounded {stormRate cooldown : Int} {clock : Nat} {w : Watched}
    (wide : (newBreaker stormRate cooldown).window ≤ (newBreaker stormRate cooldown).cooldown)
    (watches : Watches (newBreaker stormRate cooldown) clock w) (rule : String) :
    let b := newBreaker stormRate cooldown
    (∀ start, (w.fires rule).countP (fun f => start ≤ f.time ∧ f.time < start + b.window) ≤
      b.stormRate + 1) ∧
    (∀ start, (w.fires rule).countP (fun f => start < f.time ∧ f.time ≤ start + b.window) ≤
      b.stormRate + 1) ∧
    (w.fires rule).Pairwise fun later earlier =>
      earlier.opened → earlier.time + b.cooldown ≤ later.time := by
  intro b
  have paced :=
    (Watched.Orderly.of_watches watches (fun _ => rfl) wide (newBreaker_cools _ _)).paced rule
  refine ⟨fun start => paced.bound _ ?_, fun start => paced.bound _ ?_, paced.spaced⟩
  · intro f _ g _ inside inside'
    simp only [decide_eq_true_eq] at inside inside'
    show f.time < g.time + b.window
    omega
  · intro f _ g _ inside inside'
    simp only [decide_eq_true_eq] at inside inside'
    show f.time < g.time + b.window
    omega

/-- Two fires under a storm rate of one open the breaker for two minutes. -/
theorem storm_of_two :
    let b := newBreaker 1 120000000000
    let w := (((({ breaker := b } : Watched).step 1 (.allow "r")).step 2 (.recordFire "r")).step 3
      (.allow "r")).step 4 (.recordFire "r")
    ((w.fires "r").map Fire.opened = [true, false]) ∧
      (w.fires "r").countP (fun f => 1 ≤ f.time ∧ f.time < 1 + b.window) ≤ b.stormRate + 1 := by
  intro b w
  have first : Watches b 2
      ((({ breaker := b } : Watched).step 1 (.allow "r")).step 2 (.recordFire "r")) :=
    .call (.call .start (by decide) trivial) (by decide) rfl
  have second : Watches b 4 w := .call (.call first (by decide) trivial) (by decide) rfl
  exact ⟨by decide, (storm_bounded (by decide) second "r").1 1⟩

end Zester.Reactor

import Zester.Reactor.Engine

/-! The deliveries of one event. A rule that fails in a way that may pass has the event delivered
again, with all its rules: what the breaker counts of it, and when that is at most one fire a
rule. -/
namespace Zester.Reactor

/-- An event between its first delivery and the last one. -/
structure Delivery where
  guards : Guards
  /-- The position of the loop over the matched rules. -/
  next : Nat := 0
  transient : Bool := false
  acked : Bool := false
  /-- The positions of the rules whose fires have been recorded, the last one first. -/
  recorded : List Nat := []

inductive DeliveryStep where
  /-- The next turn of the loop, with the times at which the guards are asked and told. -/
  | turn (moment : Moment) (seams : Seams) (asked told : Nat)
  /-- The end of the loop: the message is acknowledged, or comes again. -/
  | answer
  /-- What other events and the sweeper make of the guards. -/
  | others (guards : Guards)

namespace Delivery
variable (e : Engine) (w : Work) (d : Delivery)

def step : DeliveryStep → Delivery
  | .turn moment seams asked told =>
    match d.acked, w.matched[d.next]? with
    | false, some rule =>
      let (turn, guards) := { e with seams := seams }.turn moment w rule asked told d.guards
      { d with
        guards := guards
        next := d.next + 1
        transient := d.transient || turn = .transient
        recorded :=
          if turn = .completed ∧ d.guards.breaker.isSome then d.next :: d.recorded else d.recorded }
    | _, _ => d
  | .answer =>
    if d.next < w.matched.length then d
    else if d.transient then { d with next := 0, transient := false }
    else { d with acked := true }
  | .others guards => { d with guards := guards }

/-- A rule that the event has been recorded for is not let through to its end again: one of the
guards refuses it, or it fails. -/
def Guarded : DeliveryStep → Prop
  | .turn moment seams asked _ =>
    d.acked = false → d.next ∈ d.recorded → d.guards.breaker.isSome →
      ∀ rule, w.matched[d.next]? = some rule → (d.guards.breakerAllow rule.ref asked).1 = false ∨
      d.guards.throttle.allow rule.ref w.origin (e.period rule) asked = false ∨
      Engine.fails { e with seams := seams } moment w rule = true
  | .answer | .others _ => True

end Delivery

/-- The states of an event all of whose steps have been guarded. -/
inductive Delivered (e : Engine) (w : Work) (guards : Guards) : Delivery → Prop
  | first : Delivered e w guards { guards := guards }
  | step {d : Delivery} {s : DeliveryStep} (before : Delivered e w guards d)
      (guarded : d.Guarded e w s) :
      Delivered e w guards (d.step e w s)

section
variable {e : Engine} {w : Work} {guards : Guards} {d : Delivery}

theorem Guards.breakerAllow_throttle (g : Guards) (rule : String) (now : Nat) :
    (g.breakerAllow rule now).2.throttle = g.throttle := by
  unfold breakerAllow
  split <;> rfl

theorem turn_completed :
    (e.turn moment w rule asked told guards).1 = .completed ↔
      ¬ ((guards.breakerAllow rule.ref asked).1 = false ∨
        guards.throttle.allow rule.ref w.origin (e.period rule) asked = false ∨
          e.fails moment w rule = true) := by
  unfold Engine.turn
  rw [← guards.breakerAllow_throttle rule.ref asked]
  generalize guards.breakerAllow rule.ref asked = answered
  obtain ⟨allowed, g⟩ := answered
  dsimp only
  cases allowed <;> cases g.throttle.allow rule.ref w.origin (e.period rule) asked <;>
    cases e.fails moment w rule <;> simp

/-- A step leaves the records without a second one for a rule just if it is guarded. -/
theorem nodup_step (once : d.recorded.Nodup) (s : DeliveryStep) :
    (d.step e w s).recorded.Nodup ↔ d.Guarded e w s := by
  cases s with
  | turn moment seams asked told =>
    unfold Delivery.step Delivery.Guarded
    cases d.acked with
    | true => simpa using once
    | false =>
      cases reached : w.matched[d.next]? with
      | none => simpa using once
      | some rule =>
        have completed :=
          @turn_completed { e with seams := seams } w d.guards moment rule asked told
        change _ ↔ ¬ (_ ∨ d.guards.throttle.allow rule.ref w.origin (e.period rule) asked = false ∨
          _) at completed
        simp only [completed, Option.some.injEq, forall_eq', true_imp_iff]
        split
        · rename_i records
          simp only [List.nodup_cons, once, and_true]
          tauto
        · simp only [once, true_iff]
          tauto
  | answer =>
    simp only [Delivery.step, Delivery.Guarded, iff_true]
    split
    · exact once
    · split <;> exact once
  | others guards => simpa [Delivery.step, Delivery.Guarded] using once

/-- While every delivery that comes to a rule already recorded finds it refused by a guard or
failing, the event counts once for each rule, and the first step that is not so breaks this. -/
theorem recorded_once (delivered : Delivered e w guards d) :
    d.recorded.Nodup ∧ ∀ s, (d.step e w s).recorded.Nodup ↔ d.Guarded e w s := by
  have once : d.recorded.Nodup := by
    induction delivered with
    | first => exact List.nodup_nil
    | step _ guarded ih => exact (nodup_step ih _).mpr guarded
  exact ⟨once, nodup_step once⟩

end

/-- A rule that only logs, and one whose event cannot be sent. -/
def twoRules : RuleSet where
  rules := [{ ref := "log", covers := fun _ => true }, { ref := "send", covers := fun _ => true }]
  render ref _ _ :=
    if ref = "log" then .actions [⟨"note", .log "seen"⟩]
      else .actions [⟨"out", .eventSend "again" []⟩]

def unthrottled : Engine where
  configuredDepth := 3
  maxEventAge := 0
  ruleSet := twoRules
  sha256Hex text := text
  seams := ⟨none, none, none, none⟩

def noGuards : Guards := ⟨some (newBreaker 0 0), ⟨4096, []⟩⟩

def oneEvent : Work :=
  ⟨{ id := "e", tag := "a/b", data := [], ts := none, v := 1, origin := "p", depth := 0 }, "p",
    twoRules.rules⟩

def failingTurn (now : Nat) : DeliveryStep :=
  .turn ⟨0, fun _ => false, fun _ => true, false, fun _ => true, fun _ _ => true⟩
    ⟨none, none, none, some fun _ _ _ => .error "no responders"⟩ now now

/-- Without a period, the rule that logs is counted with each delivery. -/
theorem redelivery_counted_again :
    (([failingTurn 1, failingTurn 2, .answer, failingTurn 3].foldl
      (Delivery.step unthrottled oneEvent) { guards := noGuards }).recorded = [0, 0]) := by
  decide

def throttled : Engine := { unthrottled with defaultThrottle := 60000000000 }

/-- With a period of a minute the second delivery finds the rule throttled. -/
theorem recorded_once_throttled : let step := Delivery.step throttled oneEvent
    let d := step (step (step (step { guards := noGuards } (failingTurn 1)) (failingTurn 2))
      .answer) (failingTurn 3)
    d.recorded = [0] ∧ d.recorded.Nodup := by
  intro step d
  have delivered : Delivered throttled oneEvent noGuards d := by
    refine .step (.step (.step (.step .first ?_) ?_) ?_) ?_
    all_goals exact (nodup_step (by decide) _).mp (by decide)
  exact ⟨by decide, (recorded_once delivered).1⟩

end Zester.Reactor

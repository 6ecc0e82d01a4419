import Zester.Enroll.Verify
import Zester.Reactor.ChainProofs

/-! Which reactions share the ID by which the second of two is taken for a repetition of the
first. -/
namespace Zester.Reactor
open List

/-- A block of a rule, for an event and the origin that its subject stands for. -/
structure Reaction where
  ev : Event
  origin : String
  ruleRef : String
  blockID : String

/-- What a credential lets its holder publish events as. -/
def Authentic (origin : String) : Prop :=
  origin = originMaster ∨ origin = originAdmin ∨ Enroll.validatePeelID origin = .ok ()

/-- The text behind the ID of a reaction's job. -/
def Reaction.jobText (r : Reaction) : String := joined [r.origin, r.ev.id, r.ruleRef, r.blockID]

/-- The text behind the ID of a reaction's event. -/
def Reaction.chainText (r : Reaction) : String := joined [r.ev.id, r.ruleRef, r.blockID]

/-- The first 32 digits of the hash tell the texts apart. -/
def CollisionFree (sha256Hex : String → String) (texts : List String) : Prop :=
  ∀ a ∈ texts, ∀ b ∈ texts, (sha256Hex a).toList.take 32 = (sha256Hex b).toList.take 32 → a = b

/-- No job of the one reaction is taken for one of the other, whatever the blocks ask for. -/
def JobsApart (sha256Hex : String → String) (a b : Reaction) : Prop :=
  ∀ x y : Executor, x.sha256Hex = sha256Hex → y.sha256Hex = sha256Hex → ∀ deed deed' j j',
    .dispatch j ∈ (x.execute a.ev a.origin a.ruleRef ⟨a.blockID, deed⟩).1 →
      .dispatch j' ∈ (y.execute b.ev b.origin b.ruleRef ⟨b.blockID, deed'⟩).1 → j.jid ≠ j'.jid

/-- No event of the one reaction is taken for one of the other, whatever the blocks ask for. -/
def EventsApart (sha256Hex : String → String) (a b : Reaction) : Prop :=
  ∀ x y : Executor, x.sha256Hex = sha256Hex → y.sha256Hex = sha256Hex →
    ∀ deed deed' subject subject' ev ev' id id',
    .emit subject ev id ∈ (x.execute a.ev a.origin a.ruleRef ⟨a.blockID, deed⟩).1 →
      .emit subject' ev' id' ∈ (y.execute b.ev b.origin b.ruleRef ⟨b.blockID, deed'⟩).1 → id ≠ id'

theorem takeWhile_joined (next : String) (rest : List String)
    (plain : Char.ofNat 0 ∉ first.toList) :
    (joined (first :: next :: rest)).toList.takeWhile (· ≠ Char.ofNat 0) = first.toList := by
  have split : (joined (first :: next :: rest)).toList =
      first.toList ++ Char.ofNat 0 :: (joined (next :: rest)).toList := by
    simp [joined, String.toList_intercalate, intercalate]
  rw [split, takeWhile_append_of_pos]
  · simp
  · intro c member
    simp only [ne_eq, decide_eq_true_eq]
    rintro rfl
    exact plain member

theorem Authentic.plain (authentic : Authentic origin) : Char.ofNat 0 ∉ origin.toList := by
  obtain rfl | rfl | valid := authentic
  · decide
  · decide
  · exact fun zero => absurd (Enroll.isPeelIDChar_of_validatePeelID valid _ zero) (by decide)

/-- The parts of a job's text cannot move across the end of an authentic origin. -/
theorem jobText_ne {a b : Reaction} (authentic : Authentic a.origin)
    (authentic' : Authentic b.origin)
    (different : a.origin ≠ b.origin) : a.jobText ≠ b.jobText := by
  intro same
  have first := takeWhile_joined a.ev.id [a.ruleRef, a.blockID] authentic.plain
  have second := takeWhile_joined b.ev.id [b.ruleRef, b.blockID] authentic'.plain
  rw [show joined [a.origin, a.ev.id, a.ruleRef, a.blockID] =
    joined [b.origin, b.ev.id, b.ruleRef, b.blockID] from same, second] at first
  exact different (String.toList_injective first).symm

theorem jobsApart (free : CollisionFree sha256Hex [a.jobText, b.jobText])
    (different : a.jobText ≠ b.jobText) : JobsApart sha256Hex a b := by
  rintro x y rfl hash deed deed' j j' made made' same
  rw [dispatched_jid made, dispatched_jid made', hash, deriveJID, deriveJID,
    String.append_right_inj] at same
  refine different (free _ (by simp) _ (by simp) ?_)
  exact String.ofList_injective same

theorem eventsApart (free : CollisionFree sha256Hex [a.chainText, b.chainText])
    (different : a.chainText ≠ b.chainText) : EventsApart sha256Hex a b := by
  rintro x y rfl hash deed deed' _ _ _ _ id id' made made' same
  rw [emitted_id made, emitted_id made', hash] at same
  refine different (free _ (by simp) _ (by simp) ?_)
  exact congrArg (fun text => text.toList.take 32) same

def sender (sha256Hex : String → String) (cap : Int) : Executor :=
  ⟨sha256Hex, ⟨none, none, none, some fun _ _ _ => .ok ()⟩, cap, 0⟩

theorem sender_emits (ev : Event) (origin ruleRef blockID : String) :
    ∃ subject derived, .emit subject derived (deriveChainID sha256Hex ev.id ruleRef blockID) ∈
      ((sender sha256Hex (ev.depth + 2)).execute ev origin ruleRef
        ⟨blockID, .eventSend "t" []⟩).1 := by
  have below : ¬ (0 < ev.depth + 2 ∧ ev.depth + 2 ≤ ev.depth + 1) := by omega
  refine ⟨masterEventSubject ("reaction." ++ dottedTag "t"),
    (sender sha256Hex (ev.depth + 2)).derivedEvent ev ruleRef blockID "t" [], ?_⟩
  show _ ∈ (if 0 < ev.depth + 2 ∧
    ev.depth + 2 ≤ ev.depth + 1 then _ else ([Effect.emit _ _ _], Result.dispatched, none)).1
  rw [if_neg below]
  exact mem_singleton.mpr rfl

theorem not_eventsApart (same : a.chainText = b.chainText) : ¬ EventsApart sha256Hex a b := by
  intro apart
  obtain ⟨_, _, made⟩ := @sender_emits sha256Hex a.ev a.origin a.ruleRef a.blockID
  obtain ⟨_, _, made'⟩ := @sender_emits sha256Hex b.ev b.origin b.ruleRef b.blockID
  exact apart _ _ rfl rfl _ _ _ _ _ _ _ _ made made' (congrArg sha256Hex same)

/-- Reactions to events of different origins are never taken for each other, if and only if the
event IDs, the rules and the blocks are not all the same (as one text, with zero bytes in
between). -/
theorem reactions_never_deduplicate_iff (sha256Hex : String → String) (a b : Reaction)
    (authentic : Authentic a.origin) (authentic' : Authentic b.origin)
    (different : a.origin ≠ b.origin)
    (free : CollisionFree sha256Hex [a.jobText, b.jobText, a.chainText, b.chainText]) :
    JobsApart sha256Hex a b ∧ EventsApart sha256Hex a b ↔ a.chainText ≠ b.chainText := by
  constructor
  · rintro ⟨-, apart⟩ same
    exact not_eventsApart same apart
  · intro texts
    refine ⟨jobsApart (fun s first t second => free s ?_ t ?_)
      (jobText_ne authentic authentic' different),
      eventsApart (fun s first t second => free s ?_ t ?_) texts⟩
    all_goals simp only [mem_cons, not_mem_nil, or_false] at first second ⊢; tauto

def digest (text : String) : String :=
  if text = joined ["web-01", "2xQ", "alert", "notify"] then
    "4e667bbc3bb2041228b355592203fa5fd1720258b4bca34e224a1a3d4a9ec4cd"
  else if text = joined ["web-02", "2xR", "alert", "notify"] then
    "354a77155d2d9f0c735e8b6a317302533a48a607547810400d83573a72bdacbb"
  else if text = joined ["web-02", "2xQ", "alert", "notify"] then
    "cf6b2103ab6889481af56be8ae502a164e526b7f4e89f30c9f3a0468faa45b8b"
  else if text = joined ["2xQ", "alert", "notify"] then
    "5f35dacba6615d753cbb9d19e15d866d1929ab8f5395419628622986f9d1df57"
  else if text = joined ["2xR", "alert", "notify"] then
    "3a6347284e2612d5004509c4ce18ff2c45f6b465c0a614ef34c9c53964d1f07a"
  else ""

def notification (peel id : String) : Reaction :=
  ⟨⟨id, "disk/full", [], none, 1, "", 0⟩, peel, "alert", "notify"⟩

theorem reactions_never_deduplicate_iff_ids :
    (notification "web-01" "2xQ").origin ≠ (notification "web-02" "2xR").origin ∧
      JobsApart digest (notification "web-01" "2xQ") (notification "web-02" "2xR") ∧
      EventsApart digest (notification "web-01" "2xQ") (notification "web-02" "2xR") := by
  have different : (notification "web-01" "2xQ").origin ≠ (notification "web-02" "2xR").origin := by
    decide
  refine ⟨different, (reactions_never_deduplicate_iff digest _ _ (.inr (.inr ?_))
    (.inr (.inr ?_)) different ?_).mpr ?_⟩
  · decide
  · decide
  · unfold CollisionFree
    decide
  · decide

/-- Two peels that choose the same ID for an event: the second notification counts as the first. -/
theorem notification_of_other_peel_lost :
    Authentic "web-01" ∧ Authentic "web-02" ∧
      CollisionFree digest [(notification "web-01" "2xQ").jobText,
        (notification "web-02" "2xQ").jobText,
        (notification "web-01" "2xQ").chainText, (notification "web-02" "2xQ").chainText] ∧
      ¬ EventsApart digest (notification "web-01" "2xQ") (notification "web-02" "2xQ") := by
  refine ⟨.inr (.inr ?_), .inr (.inr ?_), ?_, not_eventsApart rfl⟩
  · decide
  · decide
  · unfold CollisionFree
    decide

end Zester.Reactor

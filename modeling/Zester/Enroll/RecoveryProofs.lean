import Zester.Lib.Amid
import Zester.Enroll.StoreProofs

/-! The recovery of a peel under the same key moves the index away from the record that the handler
looked up only if the index still names that record when the supersession reads it. -/
namespace Zester.Enroll
open List

/-- The index entry of the peel names the record. -/
def Names (b : Bucket String Stored) (peelID : String) (rec : Record) : Prop :=
  ∃ revision, b.get (indexKey peelID) = some ⟨.id rec.id, revision⟩

/-- The index entry of the peel is read. -/
def ReadsIndex (peelID : String) (access : Access String Stored) : Prop :=
  access.op.Gets (indexKey peelID)

/-- The index entry of the peel is made to name the record. -/
def MovesIndex (peelID id : String) (access : Access String Stored) : Prop :=
  access.op.Stores (indexKey peelID) (.id id) ∧ ∃ answer, access.reply = .ok answer

/-- The entry that a supersession replaces is the one that it has read. -/
theorem supersede_swaps
    (amid : Program.Amid .anything b (Store.supersede texts newRec old now stamp) accesses
      (.ok ())) : (∃ access ∈ accesses, ReadsIndex newRec.peelID access) ∧
      (∃ access ∈ accesses, MovesIndex newRec.peelID newRec.id access) ∧
      ∃ entry, ∀ access ∈ accesses, ReadsIndex newRec.peelID access ∨
        MovesIndex newRec.peelID newRec.id access →
        access.before.get (indexKey newRec.peelID) = some entry := by
  unfold Store.supersede at amid
  cases amid with
  | @call _ b₁ b₂ _ _ _ reply _ _ _ yields rest =>
  cases reply with
  | error refused => cases rest
  | ok entry =>
  have held := yields.found
  obtain rfl := yields.read rfl
  cases rest with
  | @call _ b₃ b₄ _ _ _ reply _ _ later₃ created rest =>
  cases reply with
  | error refused => cases rest
  | ok number =>
  cases rest with
  | @call _ b₅ b₆ _ _ _ reply retires _ later₅ swapped rest =>
  cases reply with
  | error refused =>
    cases rest with
    | call _ _ rest => cases rest
  | ok moved =>
  have still : b₅.get (indexKey newRec.peelID) = some entry := by
    obtain ⟨⟨refused, failed⟩, -⟩ | ⟨-, ⟨last, found, same⟩, -⟩ :=
      swapped.guarded (Op.guarded_update _ _ _)
    · cases failed
    exact Bucket.get_of_last_revision
      (Bucket.le_trans later₃ (Bucket.le_trans created.le later₅)) held found same
  have aside : ∀ access ∈ retires, ¬ (access.op.Gets (indexKey newRec.peelID) ∨
      access.op.Stores (indexKey newRec.peelID) (.id newRec.id)) := by
    refine rest.uses (fun op => ¬ (op.Gets (indexKey newRec.peelID) ∨
      op.Stores (indexKey newRec.peelID) (.id newRec.id))) ?_
    split
    · exact ⟨by simp [Op.Gets, Op.Stores], fun reply => by cases reply <;> trivial⟩
    · trivial
  refine ⟨⟨_, mem_cons_self, rfl⟩,
    ⟨_, mem_cons_of_mem _ (mem_cons_of_mem _ mem_cons_self), ⟨rfl, rfl⟩, moved, rfl⟩, entry, ?_⟩
  simp only [forall_mem_cons]
  refine ⟨fun _ => held, fun touches => ?_, fun _ => still, fun access member touches =>
    absurd (touches.imp_right And.left) (aside access member)⟩
  simp [ReadsIndex, MovesIndex, Op.Gets, Op.Stores] at touches

theorem admit_refuses (refused : Checks.admit checks req = .error reply) :
    ∃ status message, reply = .error status message := by
  unfold Checks.admit Checks.trust at refused
  repeat' split at refused
  all_goals cases refused
  all_goals exact ⟨_, _, rfl⟩

/-- A request that succeeds by superseding the record that it looked up moves the index away from
that record if and only if the index still named it when the supersession read it. -/
theorem recovery_replaces_own_iff (asks : calls i = .enroll checks req origin)
    (makes : System.Makes .anything i (masters texts calls start) accesses s)
    (finished : s.programs i = .done (.ok ())) :
    ∃ lookup rest found, accesses = lookup ++ rest ∧
      Program.Amid .anything start (Store.findByPeelID texts req.peelID) lookup found ∧
      ∀ existing, found = some existing → existing.value.publicKey = req.publicKey →
        existing.value.state ∈ [.approved, .issued, .active] →
        (∃ access ∈ rest, MovesIndex req.peelID (enrollID origin.ksuid) access) ∧
        ((∀ access ∈ rest, MovesIndex req.peelID (enrollID origin.ksuid) access →
            Names access.before req.peelID existing.value) ↔
          ∀ access ∈ rest, ReadsIndex req.peelID access →
            Names access.before req.peelID existing.value) := by
  have amid := makes.amid finished
  simp only [masters, asks, Call.program] at amid
  obtain ⟨reply, amid, ended⟩ := amid.map
  unfold handleEnroll at amid
  cases admitted : checks.admit req with
  | error refusal =>
    obtain ⟨status, message, rfl⟩ := admit_refuses admitted
    rw [admitted] at amid
    cases amid with
    | done => cases ended
  | ok trust =>
  rw [admitted] at amid
  obtain ⟨lookup, rest, found, b₁, rfl, looked, amid⟩ := amid.bind
  refine ⟨lookup, rest, found, rfl, looked, ?_⟩
  rintro existing rfl same live
  have recovers : Program.Amid .anything b₁ (do
      return submitted (newRecord req origin trust.1 trust.2)
        (← Store.supersede texts
          (newRecord req origin trust.1 trust.2) existing origin.retiredAt origin.stamp))
      rest reply := by
    simp only [mem_cons, not_mem_nil, or_false] at live
    obtain live | live | live := live <;> simpa only [live, same, if_true] using amid
  obtain ⟨result, supersedes, rfl⟩ := recovers.map
  cases result with
  | error text => cases ended
  | ok _ =>
  obtain ⟨⟨read, readMember, reads⟩, ⟨move, moveMember, moves⟩, entry, sees⟩ :=
    supersede_swaps supersedes
  refine ⟨⟨move, moveMember, moves⟩, fun own access member reads => ?_,
    fun own access member moves => ?_⟩
  · obtain ⟨revision, held⟩ := own move moveMember moves
    have named := (sees move moveMember (.inr moves)).symm.trans held
    exact ⟨revision, (sees access member (.inl reads)).trans named⟩
  · obtain ⟨revision, held⟩ := own read readMember reads
    have named := (sees read readMember (.inl reads)).symm.trans held
    exact ⟨revision, (sees access member (.inr moves)).trans named⟩

/-- The peel is enrolled and active under the key `A`. -/
def claimed : Bucket String Stored :=
  ⟨[⟨"enr-a", some (.record { newRecord (sampleRequest "A") (sampleOrigin "a" 1) false false with
    state := .active })⟩, ⟨"peel.web", some (.id "enr-a")⟩]⟩

/-- A recovery under `A`, a revocation of the record and an enrollment under `B`. -/
def contest : Nat → Call
  | 0 => .enroll sampleChecks (sampleRequest "A") (sampleOrigin "c" 5)
  | 1 => .revoke "enr-a" "operator" "lost" 3 3
  | _ => .enroll sampleChecks (sampleRequest "B") (sampleOrigin "b" 4)

theorem recovery_replaces_own_alone :
    ∃ accesses s, System.Makes .anything 0 (masters sampleTexts contest claimed) accesses s ∧
      ∃ lookup rest found, accesses = lookup ++ rest ∧
        Program.Amid .anything claimed (Store.findByPeelID sampleTexts "web") lookup found := by
  have makes : System.Makes .anything 0 (masters sampleTexts contest claimed) _ _ :=
    .own rfl trivial (.inl ⟨rfl, rfl⟩)
      (.own rfl trivial (.inl ⟨rfl, rfl⟩) (.own rfl trivial (.inl ⟨rfl, rfl⟩)
      (.own rfl trivial (.inl ⟨rfl, rfl⟩)
        (.own rfl trivial (.inl ⟨rfl, rfl⟩) (.own rfl trivial (.inl ⟨rfl, rfl⟩) (.refl _))))))
  obtain ⟨lookup, rest, found, whole, looked, -⟩ := recovery_replaces_own_iff rfl makes rfl
  exact ⟨_, _, makes, lookup, rest, found, whole, looked⟩

/-- Between the lookup and the supersession the record is revoked and the peel enrolls under another
key: its new record loses the index. -/
theorem recovery_takes_other :
    let s := (masters sampleTexts contest claimed).play (served [0, 0, 1, 1, 2, 2, 2, 2, 2, 0, 0])
    claimed.get "peel.web" = some ⟨.id "enr-a", 1⟩ ∧
      s.bucket.get "peel.web" = some ⟨.id "enr-b", 5⟩ ∧
      s.bucket.get "enr-b" = some
        ⟨.record (newRecord (sampleRequest "B") (sampleOrigin "b" 4) false false), 6⟩ ∧
      (s.turn 0 .served).bucket = s.bucket.write "peel.web" (some (.id "enr-c")) ∧
      ((s.turn 0 .served).turn 0 .served).programs 0 = .done (.ok ()) :=
  ⟨by decide, by decide, by decide, by decide, rfl⟩

end Zester.Enroll

import Zester.Jobs.FanOutProofs
import Zester.Lib.Contract
import Zester.Jobs.Scanner

/-! When the orphan scanner takes a job over. The misses that it counts are those of the latest
listings in a row, as long as no cycle ends before it could reset the masters that are back. -/
namespace Zester.Jobs
open List Option Bucket

/-- The master is missing from the latest `k` listings. -/
def Missed (listings : List (List String)) (id : String) (k : Nat) : Prop :=
  k ≤ listings.length ∧ ∀ live ∈ listings.take k, id ∉ live

namespace Missed
variable {id : String}

theorem none : Missed listings id 0 := ⟨Nat.zero_le _, by simp⟩

theorem again (missed : Missed listings id k) (absent : id ∉ live) :
    Missed (live :: listings) id (k + 1) := by
  refine ⟨Nat.succ_le_succ missed.1, fun other member => ?_⟩
  rw [take_succ_cons] at member
  obtain rfl | member := mem_cons.mp member
  · exact absent
  · exact missed.2 other member

theorem fewer (missed : Missed listings id k) (le : m ≤ k) : Missed listings id m :=
  ⟨le.trans missed.1, fun live member => missed.2 live (take_subset_take_left _ le member)⟩

theorem uncounted (missed : Missed listings id k) (absent : id ∈ live → k = 0) :
    Missed (live :: listings) id k := by
  by_cases member : id ∈ live
  · rw [absent member]
    exact none
  · exact (missed.again member).fewer (Nat.le_succ k)

end Missed

/-- Every count is one of listings in a row. -/
def Counted (listings : List (List String)) (counts : String → Nat) : Prop :=
  ∀ id, Missed listings id (counts id)

/-- The same within a cycle: the masters that were missing so far have this listing in their
count. -/
structure Tallied (live : List String) (listings : List (List String)) (misses : Misses) :
    Prop where
  before : ∀ id ∉ misses.thisCycle, Missed listings id (misses.counts id)
  now : ∀ id ∈ misses.thisCycle, Missed (live :: listings) id (misses.counts id)

section
variable {listings : List (List String)}

theorem Counted.tallied (counted : Counted listings counts) :
    Tallied live listings ⟨counts, []⟩ where
  before id _ := counted id
  now _ member := absurd member not_mem_nil

theorem Tallied.count (tallied : Tallied live listings misses) (absent : owner ∉ live) :
    Tallied live listings (misses.count owner) ∧ owner ∈ (misses.count owner).thisCycle := by
  unfold Misses.count
  split
  · rename_i counted
    exact ⟨tallied, counted⟩
  rename_i fresh
  refine ⟨⟨fun id other => ?_, fun id member => ?_⟩, mem_cons_self⟩
  · obtain ⟨differs, old⟩ := not_or.mp (mt mem_cons.mpr other)
    simpa [Function.update_of_ne differs] using tallied.before id old
  · by_cases same : id = owner
    · subst same
      simpa using (tallied.before id fresh).again absent
    · simpa [Function.update_of_ne same] using tallied.now id (mem_of_ne_of_mem same member)

theorem Tallied.kept (tallied : Tallied live listings misses) :
    Counted (live :: listings) misses.kept := by
  intro id
  unfold Misses.kept
  split
  · rename_i missing
    exact tallied.now id missing
  · exact .none

end

variable {b : Bucket Place Item}

theorem takesOver_write {place : Place} (taken : TakesOver master b (b.write place value) jid j) :
    place = .jobs jid ∧ ∃ j', value = some (.job j') := by
  obtain ⟨⟨entry, held, decoded⟩, other, j', rev, stored, own⟩ := taken
  by_cases same : place = .jobs jid
  · subst same
    cases value with
    | none => simp at stored
    | some item =>
      rw [get_put_self, some.injEq, Entry.mk.injEq] at stored
      exact ⟨rfl, j', by rw [stored.1]⟩
  · rw [get_write_ne (Ne.symm same), held, some.injEq] at stored
    subst stored
    cases decoded
    exact absurd own other

/-- The scanner among the others, while it has these listings. -/
def scanning (master : String) (n : Nat) (listings : List (List String)) :
    Discipline Bool Place Item where
  regime := .anything
  inv _ := True
  guar scanner b b' :=
    scanner = true → ∀ jid j, TakesOver master b b' jid j → Missed listings j.owner n

def Harmless {ρ : Type} (op : Op Place Item ρ) : Prop :=
  ∀ message ∈ op.message?, ∀ j, message.value ≠ some (.job j)

variable {n : Nat} {listings : List (List String)}

theorem harmless_ensures {p : Program Place Item α} (uses : p.Uses Harmless) :
    (scanning master n listings).Ensures true (fun _ _ => True) b p := by
  refine .of_uses uses fun op b harmless _ _ => ?_
  obtain same | ⟨message, own, wrote⟩ := op.perform_eq b
  · exact .inl same
  · refine .inr ⟨fun _ jid j taken => ?_, trivial⟩
    rw [wrote] at taken
    obtain ⟨-, j', stored⟩ := takesOver_write taken
    exact absurd stored (harmless message own j')

theorem clearActiveKey_harmless (jid : String) : (clearActiveKey jid).Uses Harmless := by
  refine ⟨?_, fun _ => trivial⟩
  rintro _ ⟨⟩ j ⟨⟩

theorem writeActiveKey_harmless (jid owner : String) (now : Int) (create : Bool) :
    (writeActiveKey jid owner now create).Uses Harmless := by
  cases create <;>
  · refine ⟨?_, fun _ => trivial⟩
    rintro _ ⟨⟩ j ⟨⟩

theorem announce_harmless (jid type : String) : (announce jid type).Uses Harmless := by
  refine ⟨?_, fun _ => trivial⟩
  rintro _ ⟨⟩ j ⟨⟩

theorem publishAll_harmless (j : Job) (again : Bool) (targets : List String) :
    (publishAll j again targets).Uses Harmless := by
  induction targets with
  | nil => trivial
  | cons target targets ih =>
    refine ⟨?_, fun _ => ih⟩
    rintro _ ⟨⟩ j ⟨⟩

/-- As long as a record has the revision, it is one of the master. -/
def Owned (master : String) (b : Bucket Place Item) (rev : Nat) : Prop :=
  ∀ jid, Reads jid b rev fun j => j.owner = master

theorem owned_of_write (own : j.owner = master) :
    Owned master (b.write (.jobs jid) (some (.job j))) (b.revision + 1) := by
  intro key
  by_cases same : jid = key
  · subst same
    exact reads_of_write b own
  · exact reads_of_other (by simpa using same) _

theorem Owned.not_takesOver (owned : Owned master b rev)
    (current : (b.last (.jobs jid)).map Entry.revision = some rev) :
    ¬ TakesOver master b b' jid j := by
  rintro ⟨⟨entry, held, decoded⟩, other, -⟩
  obtain ⟨last, found, same⟩ := map_eq_some_iff.mp current
  obtain ⟨j', stored, own⟩ := (owned jid).2 last found same
  obtain ⟨item, revision⟩ := entry
  cases found.symm.trans (get_eq_some_iff.mp held)
  cases stored
  cases decoded
  exact other own

theorem swap_ensures {next : Except Refusal Nat → Program Place Item α}
    (safe : ∀ b', b ≤ b' → (b'.last (.jobs jid)).map Entry.revision = some rev → ∀ old,
      TakesOver master b' (b'.write (.jobs jid) (some (.job j))) jid old →
        Missed listings old.owner n)
    (lost : ∀ b' refused, b ≤ b' →
      (scanning master n listings).Ensures true post b' (next (.error refused)))
    (won : ∀ b', b ≤ b' → (scanning master n listings).Ensures true post (b'.write (.jobs jid)
      (some (.job j))) (next (.ok (b'.revision + 1)))) :
    (scanning master n listings).Ensures true post b
    (Program.update (.jobs jid) (.job j) rev >>= next) := by
  intro b' around _ reply b'' yields
  have after := le_trans around.later yields.le
  have keeps : ∀ last, b'.last (.jobs jid) = some last → last.revision = rev →
      (scanning master n listings).Keeps true b' (b'.write (.jobs jid) (some (.job j))) := by
    intro last found same
    refine .inr ⟨fun _ key old taken => ?_, trivial⟩
    obtain ⟨here, -⟩ := takesOver_write taken
    cases here
    exact safe b' around.later (by rw [found, map_some, same]) old taken
  obtain ⟨⟨refused, rfl⟩, rfl⟩ | ⟨rfl | ⟨refused, rfl⟩, ⟨last, found, same⟩, rfl⟩ :=
    yields.guarded (Op.guarded_update _ _ _)
  · exact ⟨.inl rfl, lost _ refused after⟩
  · exact ⟨keeps last found same, won b' around.later⟩
  · exact ⟨keeps last found same, lost _ refused after⟩

theorem Owned.mono (owned : Owned master b rev) (later : b ≤ b') : Owned master b' rev :=
  fun jid => (owned jid).mono later

theorem closing_harmless (jid type : String) : (do
    clearActiveKey jid
    announce jid type : Program Place Item Unit).Uses Harmless :=
  (clearActiveKey_harmless jid).bind fun _ => announce_harmless jid type

theorem failReclaimLimitExceeded_ensures (fenced : 0 < j.epoch) (owned : Owned master b j.epoch)
    (now : Int) :
    (scanning master n listings).Ensures true (fun _ _ => True) b
    (failReclaimLimitExceeded now j) := by
  unfold failReclaimLimitExceeded
  dsimp only
  rw [if_pos fenced]
  refine swap_ensures (fun b' later current old taken => ?_) (fun _ _ _ _ _ => trivial)
    fun _ _ => ?_
  · exact absurd taken ((owned.mono later).not_takesOver current)
  · exact harmless_ensures (closing_harmless j.jid "failed")

theorem reclaimJob_ensures (r : Reclaiming) (fenced : 0 < j.epoch)
    (owned : Owned master b j.epoch) :
    (scanning master n listings).Ensures true (fun _ _ => True) b (reclaimJob r j) := by
  have normalized : (normalizeDeadline r.now j).epoch = j.epoch := by
    unfold normalizeDeadline
    split <;> rfl
  rw [← normalized] at fenced owned
  unfold reclaimJob
  dsimp only
  generalize normalizeDeadline r.now j = orphan at fenced owned
  split
  · exact .bind trivial (failReclaimLimitExceeded_ensures fenced owned r.runningAt)
      fun _ _ _ _ _ _ _ => trivial
  cases orphan.status with
  | claimed =>
    dsimp only
    split
    · refine swap_ensures (fun b' later current old taken => ?_) (fun _ _ _ _ _ => trivial)
        fun _ _ => ?_
      · exact absurd taken ((owned.mono later).not_takesOver current)
      · exact harmless_ensures ((publishAll_harmless _ _ _).bind fun _ => trivial)
    · exact fun _ _ => trivial
  | _ => exact fun _ _ => trivial

/-- One job of a cycle: it is taken over only from a master that is missing long enough. -/
theorem visitKey_ensures {s : Scanning} {misses : Misses} (own : s.master = master)
    (threshold : s.threshold = n) (tallied : Tallied s.live older misses) (key : String) :
    (scanning master n (s.live :: older)).Ensures true
      (fun _ result => Tallied s.live older result.1) b (visitKey s misses key) := by
  unfold visitKey
  generalize String.ofList (key.toList.drop activeJobKeyPrefix.length) = jid
  have cleared : ∀ {b}, (scanning master n (s.live :: older)).Ensures true
      (fun _ result => Tallied s.live older result.1) b (do
        clearActiveKey jid
        return (misses, ([] : List Task))) :=
    .bind trivial (harmless_ensures (clearActiveKey_harmless jid)) fun _ _ _ _ _ _ _ => tallied
  refine .get (fun b₁ _ entry found => ?_) (fun _ _ _ => cleared) fun _ _ _ _ _ _ => tallied
  dsimp only
  cases decoded : entry.value.asJob with
  | none => exact fun _ _ => tallied
  | some j =>
    dsimp only
    split
    · exact cleared
    split
    · exact fun _ _ => tallied
    rename_i foreign
    obtain ⟨-, foreign, absent⟩ : j.owner ≠ "" ∧ j.owner ≠ s.master ∧ j.owner ∉ s.live := by
      simpa only [not_or] using foreign
    obtain ⟨missed, counted⟩ := tallied.count absent
    split
    · exact fun _ _ => missed
    rename_i enough
    have dead : Missed (s.live :: older) j.owner n := by
      refine (missed.now _ counted).fewer ?_
      rw [threshold] at enough
      omega
    refine swap_ensures (fun b' later current old taken => ?_) (fun _ _ _ _ _ => missed)
      fun b₂ later => ?_
    · -- the record is still the one that was read
      obtain ⟨⟨entry', held, decoded'⟩, -⟩ := taken
      obtain ⟨last, lastHere, same⟩ := map_eq_some_iff.mp current
      cases held.symm.trans (get_of_last_revision later found lastHere same)
      cases decoded'.symm.trans decoded
      exact dead
    · refine .bind trivial (harmless_ensures (writeActiveKey_harmless jid _ _ false))
        fun b₃ _ after _ _ => ?_
      refine .bind trivial (reclaimJob_ensures _ (Nat.succ_pos _) ((owned_of_write own).mono after))
        ?_
      exact fun _ _ _ _ _ _ _ => missed

theorem visitKeys_ensures {s : Scanning} (own : s.master = master) (threshold : s.threshold = n)
    (tallied : Tallied s.live older misses) (keys : List String) :
    (scanning master n (s.live :: older)).Ensures true
      (fun _ result => Tallied s.live older result.1) b (visitKeys s misses keys) := by
  induction keys generalizing b misses with
  | nil => exact fun _ _ => tallied
  | cons key keys ih =>
    refine .bind trivial (visitKey_ensures own threshold tallied key)
      fun b' first _ _ tallied' => ?_
    exact .bind trivial (ih tallied') fun _ _ _ _ tallied'' _ _ => tallied''

namespace Scanner

/-- A cycle that has not yet listed the jobs, or one that is on its way to the new counts. -/
inductive Cycling (master : String) (n : Nat) (s : Scanner) :
    Program Place Item ((String → Nat) × List Task) → Prop where
  | listing (scan : Scanning) (older : List (List String)) (own : scan.master = master)
      (threshold : scan.threshold = n)
      (listed : s.listings = scan.live :: older) (counted : Counted older s.counts) :
      Cycling master n s (scanCycle scan true s.counts)
  | visiting {p : Program Place Item ((String → Nat) × List Task)}
      (ensures : (scanning master n s.listings).Ensures true
        (fun _ result => Counted s.listings result.1) s.bucket p) :
      Cycling master n s p

structure Sound (master : String) (n : Nat) (s : Scanner) : Prop where
  idle : s.cycle = none → Counted s.listings s.counts
  busy : ∀ p, s.cycle = some p → Cycling master n s p

variable {s : Scanner}

theorem counted_zero : Counted listings fun _ => 0 := fun _ => .none

theorem counted_early {counts : String → Nat} (counted : Counted older counts)
    (nothing : ∀ id ∈ live, counts id = 0) : Counted (live :: older) counts :=
  fun id => (counted id).uncounted (nothing id)

theorem Cycling.sound (cycling : Cycling master n s p) (busy : s.cycle = some p) :
    Sound master n s where
  idle none := by
    cases none.symm.trans busy
  busy q here := by
    cases busy.symm.trans here
    exact cycling

theorem Cycling.ended {counts : String → Nat}
    (counted : Counted s.listings counts) : Cycling master n s (.done (counts, watchers)) :=
  .visiting fun _ _ => counted

/-- A step of the cycle takes over only what is lost, and goes on towards the counts. -/
theorem Cycling.acts (cycling : Cycling master n s p) (here : s.cycle = some p)
    (acts : s.Acts short s') : (scanning master n s.listings).Keeps true s.bucket s'.bucket ∧
      ((short = true → NothingToReset s) → Sound master n s') := by
  obtain @⟨ρ, op, next, reply, b', busy, yields⟩ := acts
  cases here.symm.trans busy
  generalize whole : Program.call op next = p at cycling
  cases cycling with
  | visiting ensures =>
    subst whole
    obtain ⟨keeps, rest⟩ := ensures s.bucket (.refl trivial) trivial reply b' yields
    exact ⟨keeps, fun _ => Cycling.sound (.visiting rest) rfl⟩
  | listing scan older own threshold listed counted =>
    cases whole
    obtain rfl := yields.read rfl
    refine ⟨.inl rfl, fun careful => Cycling.sound ?_ rfl⟩
    have early : endsEarly (.keys : Op Place Item (List Place)) reply = true →
        Counted s.listings s.counts := by
      intro short
      rw [listed]
      exact counted_early counted (careful short scan.live (by rw [listed]; rfl))
    cases reply with
    | error refused => exact .ended (early rfl)
    | ok places =>
      dsimp only [Program.bind]
      by_cases none : activeKeys places = []
      · simp only [if_pos none]
        exact .ended (early (by simp [endsEarly, none]))
      simp only [if_neg none]
      refine .visiting ?_
      rw [listed]
      refine .bind trivial (visitKeys_ensures own threshold counted.tallied _)
        fun _ _ _ _ tallied _ _ => ?_
      exact tallied.kept

theorem Cycling.later (cycling : Cycling master n s p)
    (later : s.bucket ≤ b) : Cycling master n { s with bucket := b } p := by
  cases cycling with
  | listing scan older own threshold listed counted =>
    exact .listing scan older own threshold listed counted
  | visiting ensures =>
    refine .visiting (ensures.later ?_)
    exact .single trivial later (j := false) (by decide) (fun scanner => by cases scanner) trivial

theorem Sound.start (b : Bucket Place Item) : Sound master n (start b) where
  idle _ := counted_zero
  busy _ started := by cases started

theorem Sound.moves (positive : 0 < n) (sound : Sound master n s)
    (moves : Moves master n NothingToReset s s') : Sound master n s' := by
  cases moves with
  | world key value =>
    exact ⟨sound.idle, fun p busy => (sound.busy p busy).later (s.bucket.le_write key value)⟩
  | listingFails _ => exact sound
  | begins scan found idle own threshold careful =>
    have counted := sound.idle idle
    have limit : scan.threshold = n := by
      unfold Scanning.threshold
      rw [threshold, if_neg (by omega)]
    cases found with
    | false => exact Cycling.sound (.ended (counted_early counted (careful rfl scan.live rfl))) rfl
    | true => exact Cycling.sound (.listing scan s.listings own limit rfl counted) rfl
  | @acts short _ acts careful =>
    have acts' := acts
    obtain ⟨busy, -⟩ := acts'
    exact ((sound.busy _ busy).acts busy acts).2 careful
  | ends counts watchers finished =>
    refine ⟨fun _ => ?_, fun p busy => by cases busy⟩
    have cycling := sound.busy _ finished
    generalize whole : Program.done (counts, watchers) = p at cycling
    cases cycling with
    | listing => cases whole
    | visiting ensures =>
      subst whole
      exact ensures s.bucket (.refl trivial)
  | restarts => exact ⟨fun _ => counted_zero, fun p busy => by cases busy⟩

theorem sound_of_reaches (positive : 0 < n) (run : Reaches master n NothingToReset (start b) s) :
    Sound master n s := by
  induction run with
  | refl => exact .start b
  | tail _ last ih => exact ih.moves positive last

/-- In runs in which no cycle that ends early has anything to reset, the scanner takes a job over
only from an owner that is missing from the latest `n` listings. -/
theorem takes_over_missed (positive : 0 < n) (run : Reaches master n NothingToReset (start b) s)
    (acts : s.Acts short s') (taken : TakesOver master s.bucket s'.bucket jid j) :
    Missed s.listings j.owner n := by
  have acts' := acts
  obtain ⟨busy, -⟩ := acts'
  obtain same | ⟨guar, -⟩ := (((sound_of_reaches positive run).busy _ busy).acts busy acts).1
  · rw [same] at taken
    obtain ⟨⟨entry, held, decoded⟩, other, j', rev, stored, own⟩ := taken
    cases held.symm.trans stored
    cases decoded
    exact absurd own other
  · exact guar rfl jid j taken

theorem turn_reaches (calm : early s) : Reaches master n early s s.turn := by
  unfold turn
  split
  · exact .refl
  · rename_i result finished
    exact .single (.ends s result.1 result.2 finished)
  · rename_i next busy
    exact .single (.acts (.call busy (.inl ⟨rfl, rfl⟩)) fun _ => calm)

theorem turn_acts {op : Op Place Item ρ}
    {next : Except Refusal ρ → Program Place Item ((String → Nat) × List Task)}
    (busy : s.cycle = some (.call op next)) :
    s.Acts (endsEarly op (op.perform s.bucket).1) s.turn := by
  unfold turn
  rw [busy]
  exact .call busy (.inl ⟨rfl, rfl⟩)

def scanOf (n : Nat) (live : List String) : Scanning :=
  ⟨"B", live, n, 0, fun _ => ⟨0, 0, 0, [], ⟨none, none⟩⟩⟩

def listed (n : Nat) (live : List String) (s : Scanner) : Scanner :=
  { s with listings := live :: s.listings, cycle := some (scanCycle (scanOf n live) true s.counts) }

theorem listed_reaches (live : List String) (idle : s.cycle = none) :
    Reaches "B" n early s (s.listed n live) :=
  .single (.begins s (scanOf n live) true idle rfl rfl fun missing => by cases missing)

def jobOf (jid : String) : Job := { jid := jid, status := .running, owner := "A" }

def dispatched (s : Scanner) (jid : String) : Scanner :=
  { s with
    bucket :=
      (s.bucket.write (.jobs jid) (some (.job (jobOf jid)))).write (.jobs (activeJobKey jid))
      (some (.index "A" 0)) }

def completed (s : Scanner) (jid : String) : Scanner :=
  { s with
    bucket :=
      (s.bucket.write (.jobs jid) (some (.job { jobOf jid with status := .complete }))).write
      (.jobs (activeJobKey jid)) none }

theorem dispatched_reaches (jid : String) : Reaches master n early s (s.dispatched jid) :=
  (Relation.ReflTransGen.single (.world s _ _)).tail (.world _ _ _)

theorem completed_reaches (jid : String) : Reaches master n early s (s.completed jid) :=
  (Relation.ReflTransGen.single (.world s _ _)).tail (.world _ _ _)

def missing (n : Nat) (s : Scanner) : Scanner := (s.listed n ["B"]).turn.turn

def first : Scanner := (start .empty).dispatched "j1"

/-- With a threshold of one, a single miss is enough. -/
theorem takes_over_missed_once :
    TakesOver "B" (first.missing 1).bucket (first.missing 1).turn.bucket "j1" (jobOf "j1") ∧
      Missed [["B"]] "A" 1 := by
  have taken : TakesOver "B" (first.missing 1).bucket (first.missing 1).turn.bucket "j1"
      (jobOf "j1") :=
    ⟨⟨⟨.job (jobOf "j1"), 1⟩, rfl, rfl⟩, by decide, _, 3, rfl, rfl⟩
  have run : Reaches "B" 1 NothingToReset (start .empty) (first.missing 1) := by
    refine (dispatched_reaches "j1").trans ((listed_reaches ["B"] rfl).trans ?_)
    exact (turn_reaches fun _ _ _ _ => rfl).trans (turn_reaches fun _ _ _ _ => rfl)
  exact ⟨taken, takes_over_missed Nat.one_pos run (turn_acts rfl) taken⟩

/-- One job of A is missed by a scan and ends; while A is seen alive again, there is none. -/
def seenAlive : Scanner :=
  ((((first.missing 2).turn.completed "j1").listed 2 ["A", "B"]).turn.turn).dispatched "j2"

/-- A was in the listing before, but a single miss is enough to take its next job over. -/
theorem live_master_loses_job :
    Reaches "B" 2 (fun _ => True) (start .empty) (seenAlive.missing 2) ∧
      (∃ short, (seenAlive.missing 2).Acts short (seenAlive.missing 2).turn) ∧
      TakesOver "B" (seenAlive.missing 2).bucket (seenAlive.missing 2).turn.bucket "j2"
      (jobOf "j2") ∧ (seenAlive.missing 2).listings = [["B"], ["A", "B"], ["B"]] ∧
      ¬ Missed (seenAlive.missing 2).listings "A" 2 := by
  refine ⟨?_, ⟨_, turn_acts rfl⟩,
    ⟨⟨⟨.job (jobOf "j2"), 5⟩, rfl, rfl⟩, by decide, _, 7, rfl, rfl⟩, rfl, ?_⟩
  · have scans : ∀ {s : Scanner}, s.cycle = none → Reaches "B" 2 (fun _ => True) s (s.missing 2) :=
      fun idle =>
      (listed_reaches ["B"] idle).trans ((turn_reaches trivial).trans (turn_reaches trivial))
    refine (dispatched_reaches "j1").trans ((scans rfl).trans ((turn_reaches trivial).trans ?_))
    refine (completed_reaches "j1").trans ((listed_reaches ["A", "B"] rfl).trans ?_)
    refine (turn_reaches trivial).trans ((turn_reaches trivial).trans ?_)
    exact (dispatched_reaches "j2").trans (scans rfl)
  · intro missed
    exact missed.2 ["A", "B"] (by decide) (by decide)

end Scanner
end Zester.Jobs

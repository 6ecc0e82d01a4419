import Zester.Jobs.Manager

/-! The orphan scanner of one master over many cycles. It shares the jobs bucket with everybody who
writes to it, and keeps the misses of the other masters in memory from one cycle to the next. -/
namespace Zester.Jobs

/-- The deferred clean-up: only the masters that were missing in this cycle keep their count. -/
def Misses.kept (misses : Misses) (id : String) : Nat :=
  if id ∈ misses.thisCycle then misses.counts id else 0

def visitKeys (s : Scanning) (misses : Misses) :
    List String → Program Place Item (Misses × List Task)
  | [] => return (misses, [])
  | key :: keys => do
    let (misses, watchers) ← visitKey s misses key
    let (misses, others) ← visitKeys s misses keys
    return (misses, watchers ++ others)

/-- A scan from its listing of the live masters on, with the counts that it leaves. -/
def scanCycle (s : Scanning) (bucketFound : Bool) (counts : String → Nat) :
    Program Place Item ((String → Nat) × List Task) :=
  if bucketFound then do
    match ← Program.keys with
    | .error _ => return (counts, [])
    | .ok places =>
      if activeKeys places = [] then return (counts, [])
      else
        let (misses, watchers) ← visitKeys s ⟨counts, []⟩ (activeKeys places)
        return (misses.kept, watchers)
  else return (counts, [])

structure Scanner where
  bucket : Bucket Place Item
  /-- The misses in a row; zero for a master without a count. -/
  counts : String → Nat
  /-- The listings of live masters that succeeded, latest first. -/
  listings : List (List String)
  /-- What is left of the current cycle. -/
  cycle : Option (Program Place Item ((String → Nat) × List Task))

/-- The listing of the active jobs failed, or there are none. -/
def endsEarly {ρ : Type} : Op Place Item ρ → Except Refusal ρ → Bool
  | .keys, .error _ => true
  | .keys, .ok places => (activeKeys places).isEmpty
  | _, _ => false

namespace Scanner

def start (b : Bucket Place Item) : Scanner := ⟨b, fun _ => 0, [], none⟩

inductive Acts (s : Scanner) : Bool → Scanner → Prop where
  | call {ρ : Type} {op : Op Place Item ρ}
      {next : Except Refusal ρ → Program Place Item ((String → Nat) × List Task)}
      {reply : Except Refusal ρ} {b' : Bucket Place Item} (busy : s.cycle = some (.call op next))
      (yields : Regime.anything.Yields op s.bucket reply b') :
      Acts s (endsEarly op reply) { s with bucket := b', cycle := some (next reply) }

/-- A step of the scanner of `master`, or of anybody around it. Where a cycle ends before it comes
to the jobs, `early` holds of the scanner. -/
inductive Moves (master : String) (n : Nat) (early : Scanner → Prop) :
    Scanner → Scanner → Prop where
  /-- Jobs are created, completed and taken over by others. -/
  | world (s : Scanner) (key : Place) (value : Option Item) :
      Moves master n early s { s with bucket := s.bucket.write key value }
  | listingFails (s : Scanner) (idle : s.cycle = none) : Moves master n early s s
  | begins (s : Scanner) (scanning : Scanning) (bucketFound : Bool) (idle : s.cycle = none)
      (own : scanning.master = master) (threshold : scanning.missThreshold = n)
      (careful : bucketFound = false → early { s with listings := scanning.live :: s.listings }) :
      Moves master n early s { s with
          listings := scanning.live :: s.listings, cycle :=
            some (scanCycle scanning bucketFound s.counts) }
  | acts {s s' : Scanner} {short : Bool} (acts : s.Acts short s')
      (careful : short = true → early s) :
      Moves master n early s s'
  | ends (s : Scanner) (counts : String → Nat) (watchers : List Task)
      (finished : s.cycle = some (.done (counts, watchers))) :
      Moves master n early s { s with counts := counts, cycle := none }
  /-- The master is restarted, with a new scanner. -/
  | restarts (s : Scanner) : Moves master n early s { s with counts := fun _ => 0, cycle := none }

def Reaches (master : String) (n : Nat) (early : Scanner → Prop) : Scanner → Scanner → Prop :=
  Relation.ReflTransGen (Moves master n early)

/-- No master that the current listing shows alive has a count. -/
def NothingToReset (s : Scanner) : Prop := ∀ live ∈ s.listings.head?, ∀ id ∈ live, s.counts id = 0

def turn (s : Scanner) : Scanner :=
  match s.cycle with
  | none => s
  | some (.done result) => { s with counts := result.1, cycle := none }
  | some (.call op next) =>
    { s with bucket := (op.perform s.bucket).2, cycle := some (next (op.perform s.bucket).1) }

end Scanner

/-- The record of the job comes from the hands of its owner into those of `master`. -/
def TakesOver (master : String) (b b' : Bucket Place Item) (jid : String) (j : Job) : Prop :=
  (∃ entry, b.get (.jobs jid) = some entry ∧ entry.value.asJob = some j) ∧ j.owner ≠ master ∧
    ∃ j' rev, b'.get (.jobs jid) = some ⟨.job j', rev⟩ ∧ j'.owner = master

end Zester.Jobs

import Zester.Jobs.Watcher

/-! The returns of a running job that is recovered: those in the bucket, and those that the
stream of the job events holds. -/
namespace Zester.Jobs

/-- A message of the stream; no data where it cannot be decoded. -/
structure Message where
  subject : String
  data : Option Return
  deriving DecidableEq, Repr

/-- The return of a message. Its peel is that of the subject. -/
def Message.return? (message : Message) : Option Return :=
  match subjectPeelID message.subject, message.data with
  | some peelID, some ret => some { ret with peelID := peelID }
  | _, _ => none

/-- The answer to one fetch of the replay consumer. -/
inductive Fetch where
  | refused (error : String)
  | batch (messages : List Message) (error : Option String)

/-- The returns of a replay so far, with the peels in the order in which they came. -/
structure Replay where
  byPeel : Returns := ∅
  order : List String := []

def Replay.add (replay : Replay) (message : Message) : Replay :=
  match message.return? with
  | none => replay
  | some ret =>
    { byPeel := replay.byPeel.insert ret.peelID ret
      order := if ret.peelID ∈ replay.byPeel then replay.order
        else replay.order ++ [ret.peelID] }

def Replay.returns (replay : Replay) : List Return := replay.order.filterMap replay.byPeel.lookup

/-- Reading until a fetch comes back empty, or until there is no time left. -/
def Replay.read (replay : Replay) : List Fetch → Except String Replay
  | [] => .ok replay
  | .refused error :: _ => .error ("job: replay returns: fetch: " ++ error)
  | .batch messages error :: fetches =>
    let replay' := messages.foldl Replay.add replay
    match error with
    | some error => .error ("job: replay returns: fetch batch: " ++ error)
    | none => if messages.isEmpty then .ok replay' else replay'.read fetches

def replayable (jid : String) : Bool :=
  jid != "" && !jid.toList.any fun c => c ∈ ['.', ' ', '*', '>']

/-- `consumer` is what the consumer for the return subjects of the job delivers. -/
def replayReturnsFromStream (jid : String) (consumer : Except String (List Fetch)) :
    Except String (List Return) := do
  if !replayable jid then
    throw ("job: replay returns: invalid jid " ++ jid.quote)
  match consumer with
  | .error error => throw ("job: replay returns: create consumer: " ++ error)
  | .ok fetches => return (← ({} : Replay).read fetches).returns

/-- The values under the keys `{jid}.>`, in the order of the keys; what cannot be decoded is
skipped. -/
def recoverPerPeelReturns (jid : String) (bucket : List (String × Option Return)) : List Return :=
  bucket.filterMap fun (key, value) =>
    if (jid ++ ".").toList.isPrefixOf key.toList && (jid ++ ".").length < key.length then value
    else none

def unseen (seen : List String) : List Return → List Return
  | [] => []
  | r :: returns =>
    if r.peelID = "" || r.peelID ∈ seen then unseen seen returns
    else r :: unseen (r.peelID :: seen) returns

/-- What `ReclaimJob` takes from a replay, if there is one. -/
def replayed (existing : List Return) (replay : Option (Except String (List Return))) :
    List Return :=
  match replay with
  | some (.ok returns) => unseen (existing.map Return.peelID) returns
  | _ => []

/-- The watcher of a running job that is recovered, as it starts. -/
def recoveryWatcher (now : Int) (j : Job) (bucket : List (String × Option Return))
    (replay : Option (Except String (List Return))) : Watcher :=
  let existing := recoverPerPeelReturns j.jid bucket
  ((newWatcher now j).seedReturns existing).seedReturnsPersist (replayed existing replay)

/-- The second replay, if the watcher comes to subscribe. -/
def mergeGapReturns (w : Watcher) (replay : Option (Except String (List Return))) : Watcher :=
  match replay with
  | some (.ok returns) => (w.mergeReturns returns).1
  | _ => w

/-- A consumer that delivers its messages and then comes back empty. -/
def delivering (batches : List (List Message)) : Except String (List Fetch) :=
  .ok (batches.map (.batch · none) ++ [.batch [] none])

end Zester.Jobs

import Zester.Enroll.Verify

/-! The subjects of the bus that carry a peel ID, and what the credentials of a peel may publish and
subscribe to: never under the name of another. -/
namespace Zester

namespace Bus

def eventSubject (peelID : String) : String := "zester.event." ++ peelID
def factSubject (peelID : String) : String := "zester.fact." ++ peelID
def jobAckSubject (jid peelID : String) : String := "zester.job." ++ jid ++ ".ack." ++ peelID
def jobReturnSubject (jid peelID : String) : String := "zester.job." ++ jid ++ ".return." ++ peelID
def jobScheduleSubject (jid peelID : String) : String :=
  "zester.job." ++ jid ++ ".schedule." ++ peelID

def kvSubject (bucket key : String) : String := "$KV." ++ bucket ++ "." ++ key

end Bus

namespace Auth
open Bus

structure UserJWTOptions where
  name : String
  issuerAccount : String
  allowPub : List String
  allowSub : List String

/-- The JetStream requests for reading, listing and watching a stream. -/
def readAPI (stream : String) : List String :=
  ["$JS.API.STREAM.INFO." ++ stream,
   "$JS.API.DIRECT.GET." ++ stream ++ ".>",
   "$JS.API.STREAM.MSG.GET." ++ stream,
   "$JS.API.CONSUMER.CREATE." ++ stream,
   "$JS.API.CONSUMER.CREATE." ++ stream ++ ".>",
   "$JS.API.CONSUMER.DELETE." ++ stream ++ ".>"]

def peelUserJWTOptions (peelID accountPub : String) : UserJWTOptions where
  name := peelID
  issuerAccount := accountPub
  allowPub :=
    ["zester.event." ++ peelID ++ ".>",
     "zester.fact." ++ peelID,
     "zester.job.*.ack." ++ peelID,
     "zester.job.*.return." ++ peelID,
     "zester.job.*.schedule." ++ peelID,
     "zester.target.resolve"] ++
    readAPI "KV_facts" ++ readAPI "KV_settings-files" ++ readAPI "KV_secrets" ++
    readAPI "KV_basket" ++ readAPI "KV_state-files" ++
    ["$JS.API.STREAM.INFO.KV_peel-heartbeat",
     "$JS.API.STREAM.INFO.KV_update-status"] ++
    readAPI "OBJ_update-binaries" ++
    ["$JS.FC.OBJ_update-binaries.>",
     "$JS.FC.KV_settings-files.>",
     "$JS.FC.KV_state-files.>",
     "$JS.FC.KV_secrets.>",
     "$JS.FC.KV_basket.>",
     "$JS.FC.KV_facts.>",
     "$KV.basket." ++ peelID ++ ".>",
     "$KV.facts." ++ peelID,
     "$KV.peel-heartbeat." ++ peelID,
     "$KV.update-status.peel." ++ peelID,
     "_INBOX.>"]
  allowSub :=
    ["zester.cmd." ++ peelID,
     "zester.cmd." ++ peelID ++ ".>",
     "zester.update.cmd." ++ peelID,
     "zester.job.*.cancel",
     "$KV.settings-files.>",
     "$KV.secrets._master_curve_pub",
     "$KV.secrets._cluster_info",
     "$KV.secrets." ++ peelID,
     "$KV.basket.>",
     "$KV.state-files.>",
     "_INBOX.>"]

/-- What a peel does under its own name, whatever the rest of the subject. -/
inductive Act where
  | event
  | eventBelow (tail : String)
  | fact
  | factsKey
  | basketKey (function : String)
  | heartbeatKey
  | statusKey (component : String)
  | jobAck (jid : String)
  | jobReturn (jid : String)
  | jobSchedule (jid : String)

def Act.subject (peelID : String) : Act → String
  | .event => eventSubject peelID
  | .eventBelow tail => eventSubject peelID ++ "." ++ tail
  | .fact => factSubject peelID
  | .factsKey => kvSubject "facts" peelID
  | .basketKey function => kvSubject "basket" (peelID ++ "." ++ function)
  | .heartbeatKey => kvSubject "peel-heartbeat" peelID
  | .statusKey component => kvSubject "update-status" (component ++ "." ++ peelID)
  | .jobAck jid => jobAckSubject jid peelID
  | .jobReturn jid => jobReturnSubject jid peelID
  | .jobSchedule jid => jobScheduleSubject jid peelID

open Bus Subject List

/-- The tokens before the dot that ends a text. -/
def stem (front : String) : List Token := (tokens front).dropLast

theorem tokens_named (dot : front.toList.getLast? = some '.') (dotless : '.' ∉ peelID.toList) :
    tokens (front ++ peelID) = stem front ++ [peelID.toList] := by
  rw [tokens_append dot, tokens_of_dotless dotless, stem]

/-- What stands before the name in the subjects that have it right after a fixed text. -/
def leadingFronts : List String :=
  ["zester.event.", "zester.fact.", "$KV.facts.", "$KV.basket.", "$KV.peel-heartbeat."]

/-- The beginnings of the subjects that end with the name. -/
def trailingFronts : List String := ["zester.job.", "$KV.update-status."]

def Leads (peelID subject : String) : Prop :=
  ∃ front ∈ leadingFronts, ∃ rest, tokens subject = stem front ++ [peelID.toList] ++ rest

def Trails (peelID subject : String) : Prop :=
  ∃ front ∈ trailingFronts, ∃ middle, tokens subject = stem front ++ middle ++ [peelID.toList]

theorem leads_of_named (front : String) (member : front ∈ leadingFronts)
    (dotless : '.' ∉ other.toList) : Leads other (front ++ other) := by
  have dot : ∀ front ∈ leadingFronts, front.toList.getLast? = some '.' := by decide
  exact ⟨front, member, [], by rw [tokens_named (dot front member) dotless, append_nil]⟩

theorem Leads.below (leads : Leads other subject) (tail : String) :
    Leads other (subject ++ "." ++ tail) := by
  obtain ⟨front, member, rest, split⟩ := leads
  exact ⟨front, member, rest ++ tokens tail, by rw [tokens_append_dot, split, append_assoc]⟩

theorem trails_of_named (front part close : String) (member : front ∈ trailingFronts)
    (dot : close.toList.getLast? = some '.') (dotless : '.' ∉ other.toList) :
    Trails other (front ++ part ++ close ++ other) := by
  have dots : ∀ front ∈ trailingFronts, front.toList.getLast? = some '.' := by decide
  have closes : (front ++ part ++ close).toList.getLast? = some '.' := by
    simp [getLast?_append, dot]
  refine ⟨front, member, (tokens (part ++ close)).dropLast, ?_⟩
  rw [tokens_named closes dotless, stem, String.append_assoc, tokens_append (dots front member),
    dropLast_append_of_ne_nil (tokens_ne_nil _), stem]

theorem act_subject (act : Act) (dotless : '.' ∉ other.toList) :
    Leads other (act.subject other) ∨ Trails other (act.subject other) := by
  cases act with
  | event => exact .inl (leads_of_named "zester.event." (by decide) dotless)
  | eventBelow tail => exact .inl ((leads_of_named "zester.event." (by decide) dotless).below tail)
  | fact => exact .inl (leads_of_named "zester.fact." (by decide) dotless)
  | factsKey => exact .inl (leads_of_named "$KV.facts." (by decide) dotless)
  | basketKey function =>
    have key : Act.subject other (.basketKey function) = "$KV.basket." ++
        (other ++ "." ++ function) := rfl
    rw [key, ← String.append_assoc, ← String.append_assoc]
    exact .inl ((leads_of_named "$KV.basket." (by decide) dotless).below function)
  | heartbeatKey => exact .inl (leads_of_named "$KV.peel-heartbeat." (by decide) dotless)
  | statusKey component =>
    have key : Act.subject other (.statusKey component) =
        "$KV.update-status." ++ (component ++ "." ++ other) := rfl
    rw [key, ← String.append_assoc, ← String.append_assoc]
    exact .inr (trails_of_named "$KV.update-status." component "." (by decide) (by decide) dotless)
  | jobAck jid =>
    exact .inr (trails_of_named "zester.job." jid ".ack." (by decide) (by decide) dotless)
  | jobReturn jid =>
    exact .inr (trails_of_named "zester.job." jid ".return." (by decide) (by decide) dotless)
  | jobSchedule jid =>
    exact .inr (trails_of_named "zester.job." jid ".schedule." (by decide) (by decide) dotless)

/-- The grants that name no peel: requests to JetStream, replies and the target service. -/
def isShared (grant : List Token) : Bool :=
  (leadingFronts ++ trailingFronts).all fun front => clashes grant (stem front)

theorem readAPI_shared (stream : String) : ∀ grant ∈ readAPI stream, isShared (tokens grant) := by
  have elsewhere : ∀ front ∈ leadingFronts ++ trailingFronts,
      clashes ["$JS".toList] (stem front) = true := by decide
  have jetStream : ∀ {front : String}, front.toList.getLast? = some '.' →
      (stem front).head? = some "$JS".toList → ∀ rest, isShared (tokens (front ++ rest)) := by
    intro front dot first rest
    obtain ⟨more, split⟩ := head?_eq_some_iff.mp first
    rw [tokens_append dot, ← stem, split, isShared, all_eq_true]
    intro front member
    exact clashes_append (elsewhere front member) (more ++ tokens rest)
  simp only [readAPI, String.append_assoc, forall_mem_cons, not_mem_nil, false_implies,
    implies_true, and_true]
  refine ⟨?_, ?_, ?_, ?_, ?_, ?_⟩ <;> exact jetStream (by decide) (by decide) _

/-- A grant that names its peel: the text before the name, and whether more may follow it. -/
structure OwnGrant where
  front : String
  many : Bool
  deriving DecidableEq

def OwnGrant.text (g : OwnGrant) (peelID : String) : String :=
  if g.many then g.front ++ peelID ++ ".>" else g.front ++ peelID

def ownGrants : List OwnGrant :=
  [⟨"zester.event.", true⟩, ⟨"zester.fact.", false⟩, ⟨"zester.job.*.ack.", false⟩,
   ⟨"zester.job.*.return.", false⟩, ⟨"zester.job.*.schedule.", false⟩, ⟨"$KV.basket.", true⟩,
   ⟨"$KV.facts.", false⟩, ⟨"$KV.peel-heartbeat.", false⟩, ⟨"$KV.update-status.peel.", false⟩]

theorem mem_allowPub (member : grant ∈ (peelUserJWTOptions own accountPub).allowPub) :
    isShared (tokens grant) ∨ ∃ g ∈ ownGrants, grant = g.text own := by
  have reads : ∀ {stream : String}, grant ∈ readAPI stream →
      isShared (tokens grant) ∨ ∃ g ∈ ownGrants, grant = g.text own :=
    fun among => .inl (readAPI_shared _ grant among)
  simp only [peelUserJWTOptions, mem_append, mem_cons, not_mem_nil, or_false, or_assoc] at member
  obtain rfl | rfl | rfl | rfl | rfl | rfl | api | api | api | api | api | rfl | rfl | api | rfl |
    rfl | rfl | rfl | rfl | rfl | rfl | rfl | rfl | rfl | rfl := member
  -- what all peels share
  all_goals try first | exact reads api | exact .inl (by decide)
  · exact .inr ⟨⟨"zester.event.", true⟩, by decide, rfl⟩
  · exact .inr ⟨⟨"zester.fact.", false⟩, by decide, rfl⟩
  · exact .inr ⟨⟨"zester.job.*.ack.", false⟩, by decide, rfl⟩
  · exact .inr ⟨⟨"zester.job.*.return.", false⟩, by decide, rfl⟩
  · exact .inr ⟨⟨"zester.job.*.schedule.", false⟩, by decide, rfl⟩
  · exact .inr ⟨⟨"$KV.basket.", true⟩, by decide, rfl⟩
  · exact .inr ⟨⟨"$KV.facts.", false⟩, by decide, rfl⟩
  · exact .inr ⟨⟨"$KV.peel-heartbeat.", false⟩, by decide, rfl⟩
  · exact .inr ⟨⟨"$KV.update-status.peel.", false⟩, by decide, rfl⟩

theorem tokens_ownGrant (member : g ∈ ownGrants) (dotless : '.' ∉ own.toList) :
    tokens (g.text own) = stem g.front ++ own.toList :: if g.many then [['>']] else [] := by
  have dot : ∀ g ∈ ownGrants, g.front.toList.getLast? = some '.' := by decide
  unfold OwnGrant.text
  split
  · have more : g.front ++ own ++ ".>" = g.front ++ own ++ "." ++ ">" := by
      rw [@String.append_assoc (g.front ++ own)]
      rfl
    rw [more, tokens_append_dot, tokens_named (dot g member) dotless, append_assoc]
    rfl
  · rw [tokens_named (dot g member) dotless]

theorem ownGrant_apart (member : g ∈ ownGrants) (validOwn : Enroll.validatePeelID own = .ok ())
    (distinct : own ≠ other) (named : Leads other subject ∨ Trails other subject) :
    isMatch (g.text own) subject = false := by
  obtain ⟨dotless, notAny, notMany⟩ := Enroll.literal_of_validatePeelID validOwn
  have differs : own.toList ≠ other.toList := fun same => distinct (String.ext same)
  rw [isMatch, tokens_ownGrant member dotless]
  obtain ⟨front, among, rest, split⟩ | ⟨front, among, middle, split⟩ := named
  · -- the texts before the names clash, or are the same and the names clash
    have apart : ∀ g ∈ ownGrants, ∀ front ∈ leadingFronts,
        clashes (stem g.front) (stem front) = true ∨ g.front = front := by decide
    rw [split]
    obtain clash | same := apart g member front among
    · rw [append_assoc]
      exact covers_of_clashes (clashes_append clash _) _
    · have plain : ∀ front ∈ leadingFronts, ∀ token ∈ stem front, token ≠ ['>'] := by decide
      rw [same, append_cons]
      exact covers_of_clashes (clashes_append (clashes_after (plain front among) notMany notAny
        differs) _) _
  · -- the beginnings clash, or both end with the name
    have apart : ∀ g ∈ ownGrants, ∀ front ∈ trailingFronts,
        clashes (stem g.front) (stem front) = true ∨ g.many = false ∧
          ['>'] ∉ stem g.front := by decide
    rw [split]
    obtain clash | ⟨ends, plain⟩ := apart g member front among
    · rw [append_assoc]
      exact covers_of_clashes (clashes_append clash _) _
    · by_contra matched
      rw [Bool.not_eq_false, ends] at matched
      exact differs (last_of_covers plain notMany notAny matched)

/-- No publish grant of a peel matches a subject that carries the name of another. -/
theorem grant_apart (validOwn : Enroll.validatePeelID own = .ok ()) (distinct : own ≠ other)
    (granted : grant ∈ (peelUserJWTOptions own accountPub).allowPub)
    (named : Leads other subject ∨ Trails other subject) : isMatch grant subject = false := by
  obtain shared | ⟨g, member, rfl⟩ := mem_allowPub granted
  · have clash := all_eq_true.mp shared
    obtain ⟨front, among, rest, split⟩ | ⟨front, among, middle, split⟩ := named
    · rw [isMatch, split, append_assoc]
      exact covers_of_clashes (clash front (by simp [among])) _
    · rw [isMatch, split, append_assoc]
      exact covers_of_clashes (clash front (by simp [among])) _
  · exact ownGrant_apart member validOwn distinct named

/-- No publish grant of a peel matches a subject under which another peel acts. -/
theorem peel_credentials_isolated (own other accountPub : String)
    (validOwn : Enroll.validatePeelID own = .ok ())
    (validOther : Enroll.validatePeelID other = .ok ())
    (distinct : own ≠ other) (act : Act) (grant : String)
    (granted : grant ∈ (peelUserJWTOptions own accountPub).allowPub) :
    isMatch grant (act.subject other) = false :=
  grant_apart validOwn distinct granted
    (act_subject act (Enroll.literal_of_validatePeelID validOther).1)

theorem peel_credentials_isolated_ack :
    isMatch "zester.job.*.ack.web-01" "zester.job.j1.ack.web-01" = true ∧
    isMatch "zester.job.*.ack.web-01" "zester.job.j1.ack.web-02" = false :=
  ⟨by decide, peel_credentials_isolated "web-01" "web-02" "ACC" (by decide) (by decide) (by decide)
    (.jobAck "j1") "zester.job.*.ack.web-01" (by decide)⟩

end Auth
end Zester

import Zester.Lib.Subject
import Zester.Text
import Zester.Value

/-! Events, and what the subject of an event says about its origin and its tag. -/
namespace Zester.Reactor
open Subject

structure Event where
  id : String
  tag : String
  data : Entries
  /-- Nothing for the zero time. -/
  ts : Option Int
  v : Int
  origin : String
  depth : Int

inductive Kind where
  | beacon
  | send
  | master
  | admin
  deriving DecidableEq, Repr

def originMaster : String := "_master"
def originAdmin : String := "_admin"

inductive SubjectError where
  | fewTokens (got : Nat)
  | emptyToken
  | wildcard (token : String)
  | elsewhere
  | adminToken (got : String)
  | noTag
  | noName
  | reserved (origin : String)
  | unknownToken (got : String)
  deriving DecidableEq, Repr

/-- The first token that no subject of an event may have. -/
def badToken : List Token → Option SubjectError
  | [] => none
  | token :: rest =>
    if token = [] then some .emptyToken
    else if token = ['*'] ∨ token = ['>'] then some (.wildcard (String.ofList token))
    else badToken rest

/-- `strings.Join` with slashes. -/
def slashed (tokens : List Token) : String := String.ofList (['/'].intercalate tokens)

/-- The origin and the tag, by the tokens after `zester.event`. -/
def parseOrigin (origin first : Token) (rest : List Token) :
    Except SubjectError (String × String × Kind) :=
  let name := String.ofList origin
  if name = originMaster then .ok (name, slashed (first :: rest), .master)
  else if name = originAdmin then
    if first ≠ "send".toList then .error (.adminToken (String.ofList first))
    else if rest = [] then .error .noTag
    else .ok (name, slashed rest, .admin)
  else if hasPrefix name "_" then .error (.reserved name)
  else if first = "beacon".toList then
    if rest = [] then .error .noName
    else .ok (name, slashed ("beacon".toList :: origin :: rest), .beacon)
  else if first = "send".toList then
    if rest = [] then .error .noTag
    else .ok (name, slashed rest, .send)
  else .error (.unknownToken (String.ofList first))

def parseSubject (subject : String) : Except SubjectError (String × String × Kind) :=
  match tokens subject with
  | head :: area :: origin :: first :: rest =>
    match badToken (head :: area :: origin :: first :: rest) with
    | some e => .error e
    | none =>
      if String.ofList head ++ "." ++ String.ofList area ≠ "zester.event" then .error .elsewhere
      else parseOrigin origin first rest
  | short => .error (.fewTokens short.length)

def dottedTag (slashTag : String) : String :=
  String.ofList (slashTag.toList.map fun c => if c = '/' then '.' else c)

def isTagRune (r : Char) : Bool := r.isAlphanum || r == '_' || r == '-'

inductive TagError where
  | emptyTag
  | emptySegment
  | invalid (character : Char) (segment : String)
  deriving DecidableEq, Repr

def segmentError (seg : Token) : Option TagError :=
  if seg = [] then some .emptySegment
  else (seg.find? fun r => !isTagRune r).map (.invalid · (String.ofList seg))

def validateTag (slashTag : String) : Except TagError Unit :=
  if slashTag = "" then .error .emptyTag
  else
    match (slashTag.toList.splitOn '/').findSome? segmentError with
    | some e => .error e
    | none => .ok ()

def matchKey (origin slashTag : String) : String := origin ++ "/" ++ slashTag

def masterEventSubject (dottedTag : String) : String :=
  "zester.event." ++ originMaster ++ "." ++ dottedTag

def adminEventSendSubject (dottedTag : String) : String :=
  "zester.event." ++ originAdmin ++ ".send" ++ "." ++ dottedTag

def beaconSubject (peelID name : String) : String :=
  "zester.event" ++ "." ++ peelID ++ "." ++ "beacon" ++ "." ++ name

def peelEventSendSubject (peelID dottedTag : String) : String :=
  "zester.event" ++ "." ++ peelID ++ "." ++ "send" ++ "." ++ dottedTag

end Zester.Reactor

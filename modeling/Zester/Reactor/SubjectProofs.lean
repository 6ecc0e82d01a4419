import Zester.Enroll.Verify
import Zester.Lib.Lines
import Zester.Reactor.Event

/-! The subject of an event says where it is from, and what its tag and its kind are. -/
namespace Zester.Reactor
open Subject List

/-- The subject that the builders give an event whose origin and tag the validators accept. A beacon
names its peel in the tag. -/
inductive Publishes : String → Kind → String → String → Prop where
  | master (tagged : validateTag tag = .ok ()) :
      Publishes originMaster .master tag (masterEventSubject (dottedTag tag))
  | admin (tagged : validateTag tag = .ok ()) :
      Publishes originAdmin .admin tag (adminEventSendSubject (dottedTag tag))
  | send (peel : Enroll.validatePeelID origin = .ok ()) (tagged : validateTag tag = .ok ()) :
      Publishes origin .send tag (peelEventSendSubject origin (dottedTag tag))
  | beacon (peel : Enroll.validatePeelID origin = .ok ()) (named : validateTag name = .ok ()) :
      Publishes origin .beacon ("beacon" ++ "/" ++ origin ++ "/" ++ name)
        (beaconSubject origin (dottedTag name))

def Plain (token : Token) : Prop := token ≠ [] ∧ ∀ c ∈ token, isTagRune c = true

instance (token : Token) : Decidable (Plain token) :=
  decidable_of_iff (token ≠ [] ∧ token.all isTagRune = true) (by simp [Plain])

theorem badToken_of_plain (plain : ∀ token ∈ found, Plain token) : badToken found = none := by
  induction found with
  | nil => rfl
  | cons token rest ih =>
    obtain ⟨⟨some_char, runes⟩, later⟩ := forall_mem_cons.mp plain
    have wild {c : Char} (noRune : isTagRune c = false) : token ≠ [c] := by
      rintro rfl
      simp [noRune] at runes
    rw [badToken, if_neg some_char, if_neg (not_or.mpr ⟨wild (by decide), wild (by decide)⟩)]
    exact ih later

theorem parseSubject_of_tokens
    (found : tokens subject = "zester".toList :: "event".toList :: origin :: first :: rest)
    (plain : ∀ token ∈ origin :: first :: rest, Plain token) :
    parseSubject subject = parseOrigin origin first rest := by
  have good : badToken ("zester".toList :: "event".toList :: origin :: first :: rest) = none :=
    badToken_of_plain (forall_mem_cons.mpr ⟨by decide, forall_mem_cons.mpr ⟨by decide, plain⟩⟩)
  simp only [parseSubject, found, good]
  exact if_neg (by decide)

theorem plain_of_segmentError (fine : segmentError seg = none) : Plain seg := by
  unfold segmentError at fine
  split at fine
  · cases fine
  · rename_i some_char
    exact ⟨some_char, by simpa using fine⟩

/-- The segments of an accepted tag are the tokens of its dotted form. -/
theorem segments_of_validateTag (tagged : validateTag tag = .ok ()) :
    ∃ first rest, tokens (dottedTag tag) = first :: rest ∧ slashed (first :: rest) = tag ∧
      ∀ seg ∈ first :: rest, Plain seg := by
  have plain : ∀ seg ∈ tag.toList.splitOn '/', Plain seg := by
    unfold validateTag at tagged
    split at tagged
    · cases tagged
    split at tagged
    · cases tagged
    · rename_i fine
      exact fun seg member => plain_of_segmentError (findSome?_eq_none_iff.mp fine seg member)
  have apart {c : Char} (noRune : isTagRune c = false) : ∀ seg ∈ tag.toList.splitOn '/', c ∉ seg :=
    fun seg member here => by simp [(plain seg member).2 c here] at noRune
  have whole : ['/'].intercalate (tag.toList.splitOn '/') = tag.toList := intercalate_splitOn '/'
  have dotted : (dottedTag tag).toList = ['.'].intercalate (tag.toList.splitOn '/') := by
    rw [dottedTag, String.toList_ofList]
    nth_rewrite 1 [← whole]
    rw [Lines.map_intercalate fun seg member => ?_, if_pos rfl]
    conv_rhs => rw [← map_id seg]
    exact map_congr_left fun c here => if_neg fun slash =>
      apart (by decide) seg member (slash ▸ here)
  obtain ⟨first, rest, split⟩ := exists_cons_of_ne_nil (splitOn_ne_nil '/' tag.toList)
  refine ⟨first, rest, ?_, ?_, split ▸ plain⟩
  · rw [tokens, dotted, splitOn_intercalate '.' (apart (by decide)) (splitOn_ne_nil _ _), split]
  · rw [slashed, ← split, whole, String.ofList_toList]

theorem plain_of_validatePeelID (peel : Enroll.validatePeelID origin = .ok ()) :
    Plain origin.toList := by
  obtain ⟨first, rest, letters, -⟩ := Enroll.letters_of_validatePeelID peel
  exact ⟨letters ▸ cons_ne_nil first rest, Enroll.isPeelIDChar_of_validatePeelID peel⟩

theorem hasPrefix_of_validatePeelID (peel : Enroll.validatePeelID origin = .ok ()) :
    hasPrefix origin "_" = false := by
  obtain ⟨first, rest, letters, start, -⟩ := Enroll.letters_of_validatePeelID peel
  have other : first ≠ '_' := by
    rintro rfl
    exact absurd start (by decide)
  simp [hasPrefix, letters, isPrefixOf, other.symm]

theorem parseSubject_tagged {origin middle : Token}
    (start : tokens front = ["zester".toList, "event".toList, origin, middle])
    (plain : Plain origin ∧ Plain middle) (tagged : validateTag tag = .ok ()) :
    ∃ first rest, slashed (first :: rest) = tag ∧
      parseSubject (front ++ "." ++ dottedTag tag) = parseOrigin origin middle (first :: rest) := by
  obtain ⟨first, rest, segments, joined, segs⟩ := segments_of_validateTag tagged
  refine ⟨first, rest, joined,
    parseSubject_of_tokens (by rw [tokens_append_dot, start, segments]; rfl) ?_⟩
  exact forall_mem_cons.mpr ⟨plain.1, forall_mem_cons.mpr ⟨plain.2, segs⟩⟩

theorem slashed_cons (some_token : rest ≠ []) :
    slashed (first :: rest) = String.ofList first ++ "/" ++ slashed rest := by
  rw [slashed, intercalate_cons_of_ne_nil some_token, String.ofList_append, String.ofList_append]
  rfl

/-- No peel has a reserved origin. -/
theorem parseSubject_peel {middle : String} (peel : Enroll.validatePeelID origin = .ok ())
    (plain : Plain middle.toList) (tagged : validateTag tag = .ok ()) :
    ∃ rest, rest ≠ [] ∧ slashed rest = tag ∧
      parseSubject ("zester.event" ++ "." ++ origin ++ "." ++ middle ++ "." ++ dottedTag tag) =
        if middle.toList = "beacon".toList then .ok
        (origin, slashed ("beacon".toList :: origin.toList :: rest), .beacon)
        else if middle.toList = "send".toList then .ok (origin, tag, .send)
          else .error (.unknownToken middle) := by
  have single {token : String} (plain : Plain token.toList) : tokens token = [token.toList] :=
    tokens_of_dotless fun dot => absurd (plain.2 '.' dot) (by decide)
  have own := plain_of_validatePeelID peel
  have plainly := hasPrefix_of_validatePeelID peel
  have reserved {other : String} (marked : hasPrefix other "_" = true) : origin ≠ other := by
    rintro rfl
    simp [plainly] at marked
  have start : tokens ("zester.event" ++ "." ++ origin ++ "." ++ middle) =
      ["zester".toList, "event".toList, origin.toList, middle.toList] := by
    rw [tokens_append_dot, tokens_append_dot, single own, single plain]
    rfl
  obtain ⟨first, rest, joined, parsed⟩ := parseSubject_tagged start ⟨own, plain⟩ tagged
  refine ⟨first :: rest, by simp, joined, parsed.trans ?_⟩
  have master : origin ≠ originMaster := reserved (by decide)
  have admin : origin ≠ originAdmin := reserved (by decide)
  simp [parseOrigin, master, admin, plainly, joined]

theorem parseSubject_of_publishes (published : Publishes origin kind tag subject) :
    parseSubject subject = .ok (origin, tag, kind) := by
  cases published with
  | master tagged =>
    obtain ⟨first, rest, segments, joined, segs⟩ := segments_of_validateTag tagged
    have found : tokens (masterEventSubject (dottedTag tag)) =
        "zester".toList :: "event".toList :: originMaster.toList :: first :: rest := by
      rw [masterEventSubject, tokens_append_dot, segments]
      rfl
    rw [parseSubject_of_tokens found (forall_mem_cons.mpr ⟨by decide, segs⟩)]
    simp [parseOrigin, joined]
  | admin tagged =>
    obtain ⟨first, rest, joined, parsed⟩ :=
      @parseSubject_tagged ("zester.event." ++ originAdmin ++ ".send") tag originAdmin.toList
        "send".toList (by decide) (by decide) tagged
    rw [adminEventSendSubject, parsed]
    simp [parseOrigin, joined, originAdmin, originMaster]
  | send peel tagged =>
    obtain ⟨rest, -, -, parsed⟩ := @parseSubject_peel _ _ "send" peel (by decide) tagged
    exact parsed.trans ((if_neg (by decide)).trans (if_pos rfl))
  | beacon peel named =>
    obtain ⟨rest, some_seg, joined, parsed⟩ :=
      @parseSubject_peel _ _ "beacon" peel (by decide) named
    rw [if_pos rfl, slashed_cons (by simp), slashed_cons some_seg, joined] at parsed
    simpa only [beaconSubject, String.append_assoc, String.ofList_toList] using parsed

/-- The subject of an event gives back its origin, its tag and its kind, so that no two events share
one. -/
theorem subject_round_trip :
    (∀ origin kind tag subject, Publishes origin kind tag subject →
      parseSubject subject = .ok (origin, tag, kind)) ∧
      ∀ origin kind tag origin' kind' tag' subject, Publishes origin kind tag subject →
        Publishes origin' kind' tag' subject → (origin, kind, tag) = (origin', kind', tag') := by
  refine ⟨fun _ _ _ _ => parseSubject_of_publishes,
    fun origin kind tag origin' kind' tag' subject one other => ?_⟩
  have same := (parseSubject_of_publishes one).symm.trans (parseSubject_of_publishes other)
  simp_all

/-- A tag of a peel that looks like the start of a beacon. -/
theorem subject_round_trip_send :
    parseSubject "zester.event.web-01.send.beacon.disk" = .ok ("web-01", "beacon/disk", .send) :=
  subject_round_trip.1 "web-01" .send "beacon/disk"
    _ (@Publishes.send "web-01" "beacon/disk" (by decide) (by decide))

end Zester.Reactor

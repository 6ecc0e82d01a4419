import Mathlib.Data.Bool.AllAny
import Mathlib.Data.String.Basic
import Zester.Enroll.Verify
import Zester.Lib.Lines

/-! Host names as peel IDs: a dot becomes an underscore on the way in and a dot again for display.
The two correspond one to one. -/
namespace Zester.Enroll

def peelIDDotSub : Char := '_'

/-- What becomes of a character of the input. Any that is not kept is replaced byte by byte. -/
def sanitizeChar (c : Char) : Text :=
  if isPeelIDChar c then [c]
  else if c = '.' then [peelIDDotSub]
  else List.replicate c.utf8Size '-'

def sanitizePeelID (raw : String) : String :=
  let mapped := raw.toList.flatMap sanitizeChar
  String.ofList ((mapped.dropWhile fun c => c = '-' || c = '_').take maxPeelIDLength)

def displayPeelID (id : String) : String :=
  if id = "" || hasPrefix id "_" || !id.toList.contains '_' then id
  else
    match validatePeelID id with
    | .error _ => id
    | .ok () => String.ofList (id.toList.map fun c => if c = '_' then '.' else c)

open String List

/-- A label of a host name: letters, digits and inner hyphens. -/
structure IsLabel (label : Text) : Prop where
  nonempty : label ≠ []
  short : label.length ≤ 63
  letters : ∀ c ∈ label, c.isAlphanum = true ∨ c = '-'
  first : ∀ c ∈ label.head?, c.isAlphanum = true
  last : ∀ c ∈ label.getLast?, c.isAlphanum = true

/-- A host name of RFC 1123. -/
def IsHostName (host : String) : Prop := ∀ label ∈ host.toList.splitOn '.', IsLabel label

/-- What the encoding needs of a text: it starts with a letter or a digit, and has dots and hyphens
besides them. -/
structure Encodable (host : Text) : Prop where
  letters : ∀ c ∈ host, c.isAlphanum = true ∨ c = '-' ∨ c = '.'
  first : ∃ c rest, host = c :: rest ∧ c.isAlphanum = true

def encodeChar (c : Char) : Char := if c = '.' then '_' else c

def decodeChar (c : Char) : Char := if c = '_' then '.' else c

theorem IsHostName.encodable (named : IsHostName host) : Encodable host.toList := by
  have whole : ['.'].intercalate (host.toList.splitOn '.') = host.toList := intercalate_splitOn '.'
  refine ⟨fun c member => ?_, ?_⟩
  · rw [← whole] at member
    obtain rfl | ⟨label, among, inside⟩ := Lines.mem_intercalate member
    · exact .inr (.inr rfl)
    · exact ((named label among).letters c inside).imp_right .inl
  · cases labels : host.toList.splitOn '.' with
    | nil => exact absurd labels (splitOn_ne_nil _ _)
    | cons label labels' =>
      have proper := named label (labels ▸ mem_cons_self)
      cases letters : label with
      | nil => exact absurd letters proper.nonempty
      | cons c label' =>
        refine ⟨c, label' ++ (if labels' = [] then [] else '.' :: ['.'].intercalate labels'), ?_,
          proper.first c (by simp [letters])⟩
        rw [← whole, labels, letters]
        split
        · rename_i last
          simp [last]
        · rename_i more
          simp [intercalate_cons_of_ne_nil more]

section

theorem isAlphanum_ne (letter : c.isAlphanum = true) : c ≠ '_' ∧ c ≠ '-' ∧ c ≠ '.' := by
  refine ⟨?_, ?_, ?_⟩
  all_goals
    rintro rfl
    exact absurd letter (by decide)

theorem utf8Size_alphanum {c : Char} (letter : c.isAlphanum = true) : c.utf8Size = 1 := by
  delta Char.isAlphanum Char.isAlpha Char.isUpper Char.isLower Char.isDigit at letter
  simp only [Bool.or_eq_true, Bool.and_eq_true, decide_eq_true_eq] at letter
  have ascii : c.val ≤ 0x7f := by
    obtain (⟨-, low⟩ | ⟨-, low⟩) | ⟨-, low⟩ := letter
    all_goals exact UInt32.le_trans low (by decide)
  unfold Char.utf8Size
  exact if_pos ascii

theorem sanitizeChar_eq (plain : c.isAlphanum = true ∨ c = '-' ∨ c = '.') :
    sanitizeChar c = [encodeChar c] := by
  obtain letter | rfl | rfl := plain
  · rw [sanitizeChar, if_pos (by simp [isPeelIDChar, letter]), encodeChar,
      if_neg (isAlphanum_ne letter).2.2]
  · rfl
  · rfl

theorem isPeelIDChar_encodeChar (plain : c.isAlphanum = true ∨ c = '-' ∨ c = '.') :
    isPeelIDChar (encodeChar c) = true := by
  obtain letter | rfl | rfl := plain
  · rw [encodeChar, if_neg (isAlphanum_ne letter).2.2, isPeelIDChar, letter]
    rfl
  · rfl
  · rfl

theorem utf8Size_peelIDChar (plain : isPeelIDChar c = true) : c.utf8Size = 1 := by
  simp only [isPeelIDChar, Bool.or_eq_true, beq_iff_eq] at plain
  obtain (letter | rfl) | rfl := plain
  · exact utf8Size_alphanum letter
  · rfl
  · rfl

theorem utf8ByteSize_of_peelIDChars {id : String} (plain : ∀ c ∈ id.toList, isPeelIDChar c = true) :
    id.utf8ByteSize = id.toList.length := by
  rw [← utf8Len_toList]
  generalize id.toList = letters at plain
  induction letters with
  | nil => rfl
  | cons c letters ih =>
    obtain ⟨here, later⟩ := forall_mem_cons.mp plain
    rw [utf8Len_cons, ih later, utf8Size_peelIDChar here, length_cons]

variable (encodable : Encodable host)
include encodable

theorem encode_plain : ∀ c ∈ host.map encodeChar, isPeelIDChar c = true := by
  intro c member
  obtain ⟨d, inside, rfl⟩ := mem_map.mp member
  exact isPeelIDChar_encodeChar (encodable.letters d inside)

theorem encode_first : ∃ c rest, host.map encodeChar = c :: rest ∧ c.isAlphanum = true := by
  obtain ⟨c, rest, rfl, letter⟩ := encodable.first
  refine ⟨c, rest.map encodeChar, ?_, letter⟩
  rw [map_cons, encodeChar, if_neg (isAlphanum_ne letter).2.2]

theorem encode_unmarked :
    ofList (host.map encodeChar) ≠ "" ∧ hasPrefix (ofList (host.map encodeChar)) "_" = false := by
  obtain ⟨c, rest, same, letter⟩ := encode_first encodable
  rw [same]
  refine ⟨by simp, ?_⟩
  rw [hasPrefix, toList_ofList]
  simp [List.isPrefixOf, (isAlphanum_ne letter).1.symm]

/-- Nothing is stripped or cut off: each dot becomes an underscore and the rest stays. -/
theorem sanitizePeelID_eq (short : host.length ≤ maxPeelIDLength) :
    sanitizePeelID (ofList host) = ofList (host.map encodeChar) := by
  have mapped : host.flatMap sanitizeChar = host.map encodeChar := by
    rw [← flatMap_singleton' (host.map encodeChar), flatMap_map]
    exact flatMap_congr fun c inside => sanitizeChar_eq (encodable.letters c inside)
  obtain ⟨c, rest, same, letter⟩ := encode_first encodable
  obtain ⟨underscore, hyphen, -⟩ := isAlphanum_ne letter
  have kept : (host.map encodeChar).dropWhile (fun c => c = '-' || c = '_') =
      host.map encodeChar := by
    rw [same, dropWhile_cons_of_neg (by simp [underscore, hyphen])]
  rw [sanitizePeelID, toList_ofList, mapped, kept, take_of_length_le (by simpa using short)]

theorem validatePeelID_encode (short : host.length ≤ maxPeelIDLength) :
    validatePeelID (ofList (host.map encodeChar)) = .ok () := by
  obtain ⟨c, rest, same, letter⟩ := encode_first encodable
  obtain ⟨nonempty, unmarked⟩ := encode_unmarked encodable
  have plain := encode_plain encodable
  have bytes := @utf8ByteSize_of_peelIDChars (ofList (host.map encodeChar)) (by simpa using plain)
  have fits : ¬ maxPeelIDLength < (ofList (host.map encodeChar)).utf8ByteSize := by
    rw [bytes, toList_ofList, List.length_map]
    omega
  have literal : ((ofList (host.map encodeChar)).toList.any fun c => ".*>".toList.contains c) =
      false := by
    rw [toList_ofList, any_eq_false]
    intro d inside mark
    have proper := plain d inside
    obtain rfl | rfl | rfl : d = '.' ∨ d = '*' ∨ d = '>' := by simpa using mark
    all_goals exact absurd proper (by decide)
  have regex : peelIDRegex (ofList (host.map encodeChar)) = true := by
    rw [peelIDRegex, toList_ofList, same]
    rw [same] at plain
    simp only [letter, Bool.true_and, all_eq_true]
    exact fun d inside => plain d (mem_cons_of_mem _ inside)
  rw [validatePeelID, if_neg nonempty, if_neg fits, unmarked, if_neg (by simp), literal,
    if_neg (by simp), regex]
  rfl

theorem decode_encode : (host.map encodeChar).map decodeChar = host := by
  rw [List.map_map]
  refine (map_congr_left fun c inside => ?_).trans (map_id host)
  obtain letter | rfl | rfl := encodable.letters c inside
  · obtain ⟨underscore, -, dot⟩ := isAlphanum_ne letter
    simp [encodeChar, decodeChar, underscore, dot]
  · rfl
  · rfl

theorem displayPeelID_encode (short : host.length ≤ maxPeelIDLength) :
    displayPeelID (ofList (host.map encodeChar)) = ofList host := by
  have decoded := decode_encode encodable
  obtain ⟨nonempty, unmarked⟩ := encode_unmarked encodable
  have replaced : (fun c : Char => if c = '_' then '.' else c) = decodeChar := rfl
  rw [displayPeelID, toList_ofList]
  by_cases encoded : '_' ∈ host.map encodeChar
  · rw [if_neg (by simpa [nonempty, unmarked] using encoded),
      validatePeelID_encode encodable short]
    simp only [replaced, decoded]
  · rw [if_pos (by simp [encoded])]
    -- without an underscore nothing is decoded
    have plain : (host.map encodeChar).map decodeChar = host.map encodeChar := by
      refine (map_congr_left fun c inside => ?_).trans (map_id _)
      rw [decodeChar, if_neg]
      · rfl
      · rintro rfl
        exact encoded inside
    rw [← plain, decoded]

end

/-- Every host name of at most 128 characters is turned into a valid peel ID, which is displayed as
that host name again; so no two of them share one. -/
theorem peelID_of_host (host : String) (named : IsHostName host) (short : host.length ≤ 128) :
    validatePeelID (sanitizePeelID host) = .ok () ∧ displayPeelID (sanitizePeelID host) = host ∧
      ∀ other, IsHostName other → other.length ≤ 128 → sanitizePeelID other = sanitizePeelID host →
        other = host := by
  have displayed : ∀ host : String, IsHostName host → host.length ≤ 128 →
      sanitizePeelID host = ofList (host.toList.map encodeChar) ∧
          displayPeelID (sanitizePeelID host) = host := by
    intro host named short
    have encoded := sanitizePeelID_eq named.encodable short
    have decoded := displayPeelID_encode named.encodable short
    rw [ofList_toList] at encoded decoded
    exact ⟨encoded, encoded ▸ decoded⟩
  obtain ⟨encoded, back⟩ := displayed host named short
  refine ⟨?_, back, fun other named' short' same => ?_⟩
  · rw [encoded]
    exact validatePeelID_encode named.encodable short
  · rw [← (displayed other named' short').2, same, back]

theorem isHostName_web : IsHostName "web-1.example.org" := by
  have labels : "web-1.example.org".toList.splitOn '.' =
      ["web-1".toList, "example".toList, "org".toList] := by decide
  rw [IsHostName, labels]
  simp only [forall_mem_cons]
  refine ⟨?_, ?_, ?_, by simp⟩ <;>
    exact ⟨by decide, by decide, all_iff_forall_prop.mp (by decide), by simp, by simp⟩

theorem peelID_of_host_web :
    validatePeelID (sanitizePeelID "web-1.example.org") = .ok () ∧
    displayPeelID (sanitizePeelID "web-1.example.org") = "web-1.example.org" ∧
      ∀ other, IsHostName other → other.length ≤ 128 →
        sanitizePeelID other = sanitizePeelID "web-1.example.org" → other = "web-1.example.org" :=
  peelID_of_host "web-1.example.org" isHostName_web (by decide)

end Zester.Enroll

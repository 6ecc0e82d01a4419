import Zester.Lib.Subject
import Zester.Text

/-! Which texts are peel IDs. -/
namespace Zester.Enroll

def maxPeelIDLength : Nat := 128

/-- The characters of `peelIDRegex`, the first of which is a letter or a digit. -/
def isPeelIDChar (c : Char) : Bool := c.isAlphanum || c == '_' || c == '-'

/-- The match of `^[a-zA-Z0-9][a-zA-Z0-9_-]*$`. -/
def peelIDRegex (peelID : String) : Bool :=
  match peelID.toList with
  | [] => false
  | c :: rest => c.isAlphanum && rest.all isPeelIDChar

def validatePeelID (peelID : String) : Except String Unit :=
  if peelID = "" then .error "enroll: peel ID is required"
  else if maxPeelIDLength < peelID.utf8ByteSize then
    .error ("enroll: peel ID exceeds maximum length of " ++ toString maxPeelIDLength ++
      " characters")
  else if hasPrefix peelID "_" then
    .error ("enroll: peel ID must not start with '_' (reserved for trusted event origins such " ++
      "as _master and _admin)")
  else if peelID.toList.any fun c => ".*>".toList.contains c then
    .error "enroll: peel ID must not contain '.', '*', or '>' (peel IDs become NATS subject tokens)"
  else if !peelIDRegex peelID then
    .error "enroll: peel ID contains invalid characters (must match ^[a-zA-Z0-9][a-zA-Z0-9_-]*$)"
  else .ok ()

section
variable (valid : validatePeelID peelID = .ok ())
include valid

theorem letters_of_validatePeelID :
    ∃ first rest, peelID.toList = first :: rest ∧ first.isAlphanum = true ∧
      ∀ c ∈ rest, isPeelIDChar c = true := by
  unfold validatePeelID at valid
  iterate 5
    split at valid
    · cases valid
  rename_i accepted
  have regex : peelIDRegex peelID = true := by simpa using accepted
  unfold peelIDRegex at regex
  cases letters : peelID.toList with
  | nil => simp [letters] at regex
  | cons first rest => exact ⟨first, rest, rfl, by simpa [letters] using regex⟩

/-- An accepted peel ID has letters, digits, underscores and dashes only. -/
theorem isPeelIDChar_of_validatePeelID :
    ∀ c ∈ peelID.toList, isPeelIDChar c = true := by
  obtain ⟨first, rest, letters, start, further⟩ := letters_of_validatePeelID valid
  rw [letters]
  exact List.forall_mem_cons.mpr ⟨by simp [isPeelIDChar, start], further⟩

theorem literal_of_validatePeelID :
    '.' ∉ peelID.toList ∧ peelID.toList ≠ ['*'] ∧ peelID.toList ≠ ['>'] := by
  have letters := isPeelIDChar_of_validatePeelID valid
  refine ⟨fun dot => ?_, fun star => ?_, fun more => ?_⟩
  · exact absurd (letters '.' dot) (by decide)
  · exact absurd (letters '*' (by simp [star])) (by decide)
  · exact absurd (letters '>' (by simp [more])) (by decide)

end

end Zester.Enroll

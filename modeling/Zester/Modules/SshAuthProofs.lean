import Mathlib.Tactic.Cases
import Zester.Modules.SshAuth

/-! What becomes of the other keys of an `authorized_keys` file. The key of a line is the field
that follows its key type, where options may come first. -/
namespace Zester.Modules.SshAuth
open States FileProgram Option
variable {s : SSHAuthPresent}

section
variable (isType : Text → Bool)

/-- Behind the options of a line: up to the first blank outside of quotes. -/
def skipOptions (quoted : Bool) : Text → Text
  | [] => []
  | '\\' :: '"' :: rest => skipOptions quoted rest
  | c :: rest =>
    if c = '"' then skipOptions (!quoted) rest
    else if !quoted && (c = ' ' || c = '\t') then c :: rest
    else skipOptions quoted rest

/-- The field after the key type that a text begins with. -/
def bodyAfterType (text : Text) : Option Text :=
  match fields text with
  | kind :: body :: _ => if isType kind then some body else none
  | _ => none

def lineBody (l : Text) : Option Text :=
  let trimmed := trimSpace l
  if isRemark trimmed then none
  else (bodyAfterType isType trimmed).or (bodyAfterType isType (skipOptions false trimmed))

/-- The key body that a value declares: a bare one, or that of a full key line. -/
def declaredBody (name : Text) : Option Text :=
  let key := trimSpace name
  match fields key with
  | [only] => some only
  | _ => lineBody isType key

/-- A blank line, a comment, or the line of a key with another body. -/
def otherKey (body l : Text) : Bool :=
  isRemark (trimSpace l) || (lineBody isType l).any (· ≠ body)

def carriesKey (body l : Text) : Bool := lineBody isType l = some body

end

theorem fields_append_space (space : isSpace c = true) (x y : Text) :
    fields (x ++ c :: y) = fields x ++ fields y := by
  rw [fields, List.splitOnP_append_cons x y space, List.filter_append]
  rfl

theorem skipOptions_suffix (quoted : Bool) (text : Text) : skipOptions quoted text <:+ text := by
  fun_induction skipOptions quoted text with
  | case1 quoted => exact List.suffix_rfl
  | case2 quoted rest ih => exact ih.trans (List.suffix_append ['\\', '"'] rest)
  | case4 quoted c rest _ _ blank => exact List.suffix_rfl
  | case3 quoted rest _ ih | case5 quoted c rest _ _ _ ih =>
    exact ih.trans (List.suffix_cons _ rest)

theorem skipOptions_cons (skipped : skipOptions quoted text = c :: rest) : isSpace c = true := by
  fun_induction skipOptions quoted text with
  | case1 quoted => cases skipped
  | case4 quoted c rest _ _ blank =>
    cases skipped
    have space : c = ' ' ∨ c = '\t' := by simp_all
    obtain rfl | rfl := space <;> decide
  | case2 quoted rest ih | case3 quoted rest _ ih | case5 quoted c rest _ _ _ ih => exact ih skipped

theorem mem_fields_of_skipOptions (member : field ∈ fields (skipOptions quoted text)) :
    field ∈ fields text := by
  obtain ⟨options, whole⟩ := skipOptions_suffix quoted text
  cases skipped : skipOptions quoted text with
  | nil =>
    rw [skipped] at member
    cases member
  | cons c rest =>
    have space := skipOptions_cons skipped
    rw [skipped] at whole member
    rw [← List.nil_append (c :: rest), fields_append_space space] at member
    rw [← whole, fields_append_space space]
    exact List.mem_append_right _ (by simpa [fields] using member)

theorem mem_fields_of_bodyAfterType (found : bodyAfterType isType text = some body) :
    body ∈ fields text := by
  unfold bodyAfterType at found
  split at found
  · rename_i second rest split
    split at found
    · cases found
      rw [split]
      exact List.mem_cons_of_mem _ List.mem_cons_self
    · cases found
  · cases found

theorem lineBody_spec (found : lineBody isType l = some body) :
    isRemark (trimSpace l) = false ∧ body ∈ fields (trimSpace l) := by
  simp only [lineBody] at found
  split at found
  · cases found
  rename_i text
  refine ⟨by simpa using text, ?_⟩
  obtain first | ⟨_, second⟩ := or_eq_some_iff.mp found
  · exact mem_fields_of_bodyAfterType first
  · exact mem_fields_of_skipOptions (mem_fields_of_bodyAfterType second)

theorem ne_nil_of_mem_fields (member : field ∈ fields text) : field ≠ [] := by
  simpa using (List.mem_filter.mp member).2

section
variable {id : String}

def keyLines (disk : Disk Text) (path : String) : List Text := splitHostLines ((disk path).getD [])

theorem newSSHAuthPresent_ok (built : newSSHAuthPresent id target name enc comment = .ok s) :
    s = { target with id, key := trimSpace name, enc, comment } ∧
      ∀ text ∈ [trimSpace name, enc, comment], ∀ r ∈ text, isControl r = false := by
  simp only [newSSHAuthPresent] at built
  split at built
  · cases built
  split at built
  · cases built
  rename_i passed
  obtain ⟨nameOk, encOk, commentOk⟩ : noControlChars "name" (trimSpace name) = none ∧
      noWhitespace "enc" enc = none ∧ noControlChars "comment" comment = none := by
    simpa using passed
  cases built
  refine ⟨rfl, ?_⟩
  simp only [List.forall_mem_cons]
  refine ⟨reject_eq_none.mp nameOk, fun r member => ?_, reject_eq_none.mp commentOk, by simp⟩
  exact (Bool.or_eq_false_iff.mp (reject_eq_none.mp encOk r member)).1

theorem newSSHAuthAbsent_ok {s : SSHAuthAbsent} (built : newSSHAuthAbsent id target name = .ok s) :
    s = { target with id, key := trimSpace name } := by
  simp only [newSSHAuthAbsent] at built
  split at built
  · cases built
  · cases built
    rfl

theorem newline_not_mem_desiredLine (built : newSSHAuthPresent id target name enc comment = .ok s) :
    '\n' ∉ s.desiredLine := by
  obtain ⟨rfl, plain⟩ := newSSHAuthPresent_ok built
  have single : ∀ text ∈ [trimSpace name, enc, comment], '\n' ∉ text := by
    intro text member newline
    exact absurd (plain text member _ newline) (by decide)
  obtain ⟨inKey, inEnc, inComment⟩ : '\n' ∉ trimSpace name ∧ '\n' ∉ enc ∧ '\n' ∉ comment := by
    simpa using single
  simp only [SSHAuthPresent.desiredLine]
  split
  · simpa using inKey
  · split <;> simp [List.intercalate, List.intersperse, inKey, inEnc, inComment]

section
variable (resolved : resolveAuthKeysPath lookup s.toSshAuthTargetParam = .ok path)
  (runs : (s.apply lookup).Runs disk (.ok result, s') disk')
include resolved runs

theorem SSHAuthPresent.apply_ok : (disk' path).getD [] =
        renderSSHAuthPresent ((disk path).getD []) (keyBlob s.key) s.desiredLine ∧
      s' = { s with
        backup := (disk path).getD [], backupSet := (disk path).isSome,
        created := !(disk path).isSome } := by
  simp only [SSHAuthPresent.apply, resolved] at runs
  obtain ⟨reply, made, mkdir, rest⟩ := runs_bind runs
  obtain rfl : made = disk := (runs_op mkdir).same rfl
  cases reply with
  | error err => cases (runs_done rest).1
  | ok done =>
    have rest := runs_readManagedFile rest fun _ failed => by cases (runs_done failed).1
    obtain ⟨ends, same, rfl⟩ | ⟨ends, rfl⟩ := runs_write_changed rest fun _ ends => by cases ends
    · cases ends
      exact ⟨same.symm, rfl⟩
    · cases ends
      rw [Function.update_self]
      exact ⟨rfl, rfl⟩

theorem present_lines (built : newSSHAuthPresent id target name enc comment = .ok s) :
    keyLines disk' path = supersede (matchesKey (keyBlob s.key)) s.desiredLine false
      (keyLines disk path) := by
  rw [keyLines, (SSHAuthPresent.apply_ok resolved runs).1, renderSSHAuthPresent]
  refine splitHostLines_joinHostLines fun line member => ?_
  obtain rfl | kept := mem_supersede member
  · exact newline_not_mem_desiredLine built
  · exact newline_not_mem_splitHostLines kept

/-- The state that made the change gives the file back. -/
theorem present_revert (reverts : (s'.revert lookup).Runs disk' (.ok reverted) disk'') :
    disk'' path = disk path := by
  obtain ⟨-, rfl⟩ := SSHAuthPresent.apply_ok resolved runs
  simp only [SSHAuthPresent.revert, resolved] at reverts
  rw [revertHostsFile_ok reverts]
  cases disk path <;> rfl

end

theorem present_revert_new : ∃ s s' r r' disk disk',
    newSSHAuthPresent "key" ⟨"", "/keys"⟩ "AAAAC3NzaC1lZDI1NTE5".toList "ssh-ed25519".toList
        "alice".toList = .ok s ∧
      (SSHAuthPresent.apply .error s).Runs (fun _ => none) (.ok r, s') disk ∧
      (s'.revert .error).Runs disk (.ok r') disk' ∧ disk' "/keys" = none := by
  have runs := run_runs (SSHAuthPresent.apply .error ⟨⟨"", "/keys"⟩, "key",
    "AAAAC3NzaC1lZDI1NTE5".toList, "ssh-ed25519".toList, "alice".toList, [], false, false⟩)
    fun _ => none
  exact ⟨_, _, _, _, _, _, rfl, runs, run_runs _ _, present_revert rfl runs (run_runs _ _)⟩

section
variable {s : SSHAuthAbsent}
    (resolved : resolveAuthKeysPath lookup s.toSshAuthTargetParam = .ok path)
  (runs : (s.apply lookup).Runs disk (.ok result, s') disk')
include resolved runs

theorem SSHAuthAbsent.apply_ok :
    disk' path = (disk path).map (renderSSHAuthAbsent · (keyBlob s.key)) ∧
      s' = (disk path).elim s fun current => { s with backup := current, backupSet := true } := by
  simp only [SSHAuthAbsent.apply, resolved] at runs
  have rest := runs_readManagedFile runs fun _ failed => by cases (runs_done failed).1
  cases held : disk path with
  | none =>
    simp only [held, isSome_none] at rest
    obtain ⟨ends, rfl⟩ := runs_done rest
    cases ends
    exact ⟨held, rfl⟩
  | some content =>
    simp only [held, isSome_some, getD_some] at rest
    obtain ⟨ends, same, rfl⟩ | ⟨ends, rfl⟩ := runs_write_changed rest fun _ ends => by cases ends
    · cases ends
      exact ⟨held.trans (congrArg some same.symm), rfl⟩
    · cases ends
      rw [Function.update_self]
      exact ⟨rfl, rfl⟩

theorem absent_lines :
    keyLines disk' path = (keyLines disk path).filter (!matchesKey (keyBlob s.key) ·) := by
  rw [keyLines, (SSHAuthAbsent.apply_ok resolved runs).1]
  cases held : disk path with
  | none => simp [keyLines, held, splitHostLines]
  | some content =>
    rw [keyLines, held]
    refine splitHostLines_joinHostLines fun line member => ?_
    exact newline_not_mem_splitHostLines (List.mem_of_mem_filter member)

/-- An earlier backup would stay recorded where the file is missing. -/
theorem absent_revert (fresh : s.backupSet = false)
    (reverts : (s'.revert lookup).Runs disk' (.ok reverted) disk'') : disk'' path = disk path := by
  obtain ⟨left, rfl⟩ := SSHAuthAbsent.apply_ok resolved runs
  cases held : disk path <;>
    simp only [held, Option.elim, SSHAuthAbsent.revert, resolved] at reverts
  · rw [revertHostsFile_ok reverts, fresh, left, held]
    rfl
  · rw [revertHostsFile_ok reverts]
    rfl

end

theorem absent_revert_held : ∃ s s' r r' disk disk',
    newSSHAuthAbsent "key" ⟨"", "/keys"⟩ "AAAAC3NzaC1lZDI1NTE5".toList = .ok s ∧
      (SSHAuthAbsent.apply .error s).Runs
        (fun _ => some "ssh-ed25519 AAAAC3NzaC1lZDI1NTE5 alice\n".toList) (.ok r, s') disk ∧
      (s'.revert .error).Runs disk (.ok r') disk' ∧
      disk' "/keys" = some "ssh-ed25519 AAAAC3NzaC1lZDI1NTE5 alice\n".toList := by
  have runs := run_runs (SSHAuthAbsent.apply .error ⟨⟨"", "/keys"⟩, "key",
    "AAAAC3NzaC1lZDI1NTE5".toList, [], false⟩)
    fun _ => some "ssh-ed25519 AAAAC3NzaC1lZDI1NTE5 alice\n".toList
  exact ⟨_, _, _, _, _, _, rfl, runs, run_runs _ _, absent_revert rfl runs rfl (run_runs _ _)⟩

end

/-- In each line that holds a key, the text taken for the body of the declared key is a field
exactly if the line holds that key. -/
def Distinguishes (isType : Text → Bool) (blob body : Text) (lines : List Text) : Prop :=
  ∀ l ∈ lines, ∀ held, lineBody isType l = some held →
    (lineHasKey (trimSpace l) blob = true ↔ held = body)

theorem matchesKey_iff :
    matchesKey blob l = true ↔ isRemark (trimSpace l) = false ∧
      lineHasKey (trimSpace l) blob = true := by
  simp [matchesKey]

theorem matchesKey_of_lineBody (found : lineBody isType l = some body) :
    matchesKey body l = true := by
  obtain ⟨text, member⟩ := lineBody_spec found
  refine matchesKey_iff.mpr ⟨text, ?_⟩
  simp [lineHasKey, member, ne_nil_of_mem_fields member]

theorem otherKey_of_lineBody (found : lineBody isType l = some held) :
    otherKey isType body l = true ↔ held ≠ body := by
  simp [otherKey, found, (lineBody_spec found).1]

theorem distinguishes_iff : Distinguishes isType blob body lines ↔
    (∀ l ∈ lines, otherKey isType body l = true → matchesKey blob l = false) ∧
      ∀ l ∈ lines, carriesKey isType body l = true → matchesKey blob l = true := by
  refine ⟨fun tells => ⟨fun l member other => ?_, fun l member carries => ?_⟩, ?_⟩
  · cases matched : matchesKey blob l with
    | false => rfl
    | true =>
      obtain ⟨text, has⟩ := matchesKey_iff.mp matched
      obtain ⟨held, found, differs⟩ : ∃ held, lineBody isType l = some held ∧ held ≠ body := by
        simpa [otherKey, text, any_eq_true] using other
      exact absurd ((tells l member held found).mp has) differs
  · have found : lineBody isType l = some body := of_decide_eq_true carries
    exact matchesKey_iff.mpr ⟨(lineBody_spec found).1, (tells l member body found).mpr rfl⟩
  · rintro ⟨kept, gone⟩ l member held found
    refine ⟨fun has => ?_, ?_⟩
    · by_contra differs
      have matched := matchesKey_iff.mpr ⟨(lineBody_spec found).1, has⟩
      rw [kept l member ((otherKey_of_lineBody found).mpr differs)] at matched
      cases matched
    · rintro rfl
      exact (matchesKey_iff.mp (gone l member (decide_eq_true found))).2

theorem lineBody_desiredLine {id : String}
    (declared : declaredBody isType name = some body)
    (built : newSSHAuthPresent id target name enc comment = .ok s) :
    lineBody isType s.desiredLine = some body ∨ keyBlob (trimSpace name) = body := by
  obtain ⟨rfl, -⟩ := newSSHAuthPresent_ok built
  simp only [declaredBody] at declared
  split at declared
  · rename_i bare
    cases declared
    exact .inr (by simp [keyBlob, bare])
  · rename_i full
    left
    have member := (lineBody_spec declared).2
    rw [trimSpace_trimSpace] at member
    have several : 2 ≤ (fields (trimSpace name)).length := by
      cases parts : fields (trimSpace name) with
      | nil => simp [parts] at member
      | cons first rest =>
        cases rest with
        | nil => exact absurd parts (full first)
        | cons second rest => simp
    simpa [SSHAuthPresent.desiredLine, several] using declared

/-- Both states keep the lines of other keys, and leave one or none of their own, exactly if the
second field of the declared line, or the only one, tells the key from the others. -/
theorem other_keys_survive_iff (isType : Text → Bool) (lookup : String → Except String String)
    {name body : Text} (declared : declaredBody isType name = some body) :
    (∀ {id target enc comment s s' path disk disk' result},
      newSSHAuthPresent id target name enc comment = .ok s →
      resolveAuthKeysPath lookup s.toSshAuthTargetParam = .ok path →
      (s.apply lookup).Runs disk (.ok result, s') disk' →
      ((keyLines disk' path).filter (otherKey isType body) =
            (keyLines disk path).filter (otherKey isType body) ∧
          (keyLines disk' path).countP (carriesKey isType body) = 1 ↔
        lineBody isType s.desiredLine = some body ∧
          Distinguishes isType (keyBlob (trimSpace name)) body (keyLines disk path))) ∧
    (∀ {id target s s' path disk disk' result}, newSSHAuthAbsent id target name = .ok s →
      resolveAuthKeysPath lookup s.toSshAuthTargetParam = .ok path →
      (s.apply lookup).Runs disk (.ok result, s') disk' →
      ((keyLines disk' path).filter (otherKey isType body) =
            (keyLines disk path).filter (otherKey isType body) ∧
          (keyLines disk' path).countP (carriesKey isType body) = 0 ↔
        Distinguishes isType (keyBlob (trimSpace name)) body (keyLines disk path))) := by
  refine ⟨?_, ?_⟩
  · intro id target enc comment s s' path disk disk' result built resolved runs
    have key : s.key = trimSpace name := by rw [(newSSHAuthPresent_ok built).1]
    rw [present_lines resolved runs built, key]
    by_cases carries : lineBody isType s.desiredLine = some body
    · have apart : otherKey isType body s.desiredLine = false := by
        simp [otherKey, carries, (lineBody_spec carries).1]
      have counted : carriesKey isType body s.desiredLine = true := decide_eq_true carries
      rw [filter_supersede apart, countP_supersede, counted, distinguishes_iff, filter_drop_eq_iff,
        ← countP_drop_eq_zero_iff]
      simp [carries]
    · -- the line has no key type, and the lines that do hold the key are lost
      have bare := (lineBody_desiredLine declared built).resolve_left carries
      have lost := countP_drop_eq_zero_iff.mpr fun l (_ : l ∈ keyLines disk path)
        (holds : carriesKey isType body l = true) =>
          matchesKey_of_lineBody (of_decide_eq_true holds)
      rw [bare, countP_supersede, lost]
      simp [carries, carriesKey]
  · intro id target s s' path disk disk' result built resolved runs
    have key : s.key = trimSpace name := by rw [newSSHAuthAbsent_ok built]
    rw [absent_lines resolved runs, key, distinguishes_iff, countP_drop_eq_zero_iff,
      List.filter_comm, filter_drop_eq_iff]

def knownTypes (kind : Text) : Bool := kind = "ssh-rsa".toList || kind = "ssh-ed25519".toList

def noUsers (_ : String) : Except String String := .error "unknown user"

def diskWith (path content : String) : Disk Text := fun p =>
  if p = path then some content.toList else none

theorem other_keys_survive_bare : ∃ s s' result disk',
      newSSHAuthPresent "key" ⟨"", "/keys"⟩ "AAAA".toList "ssh-rsa".toList [] = .ok s ∧
      (s.apply noUsers).Runs (diskWith "/keys" "# team\nssh-rsa BBBB bob\n")
      (.ok result, s') disk' ∧ (keyLines disk' "/keys").filter (otherKey knownTypes "AAAA".toList) =
        (keyLines (diskWith "/keys" "# team\nssh-rsa BBBB bob\n") "/keys").filter
          (otherKey knownTypes "AAAA".toList) ∧
      (keyLines disk' "/keys").countP (carriesKey knownTypes "AAAA".toList) = 1 := by
  have declared : declaredBody knownTypes "AAAA".toList = some "AAAA".toList := by decide
  have built : newSSHAuthPresent "key" ⟨"", "/keys"⟩ "AAAA".toList "ssh-rsa".toList [] =
      .ok ⟨⟨"", "/keys"⟩, "key", "AAAA".toList, "ssh-rsa".toList, [], [], false, false⟩ := rfl
  refine ⟨_, _, _, _, built, run_runs _ _, ?_⟩
  exact ((other_keys_survive_iff knownTypes noUsers declared).1 built rfl (run_runs _ _)).mpr
    ⟨by decide, distinguishes_iff.mpr ⟨by decide, by decide⟩⟩

/-- With an option before the key type, the type is taken for the key, and the lines of other keys
of that type are lost. So is the line of another key with the declared one as its comment. -/
theorem other_keys_lost : (∃ s s' result disk',
      newSSHAuthPresent "key" ⟨"", "/keys"⟩ "no-pty ssh-rsa AAAA alice".toList "ssh-rsa".toList [] =
          .ok s ∧
        declaredBody knownTypes "no-pty ssh-rsa AAAA alice".toList = some "AAAA".toList ∧
        lineBody knownTypes "ssh-rsa BBBB bob".toList = some "BBBB".toList ∧
        (s.apply noUsers).Runs (diskWith "/keys" "ssh-rsa BBBB bob\n") (.ok result, s') disk' ∧
        keyLines disk' "/keys" = ["no-pty ssh-rsa AAAA alice".toList]) ∧
    ∃ s s' result disk',
      newSSHAuthAbsent "key" ⟨"", "/keys"⟩ "AAAA".toList = .ok s ∧
        declaredBody knownTypes "AAAA".toList = some "AAAA".toList ∧
        lineBody knownTypes "ssh-rsa BBBB AAAA".toList = some "BBBB".toList ∧
        (s.apply noUsers).Runs (diskWith "/keys" "ssh-rsa BBBB AAAA\n") (.ok result, s') disk' ∧
        keyLines disk' "/keys" = [] := by
  refine ⟨⟨_, _, _, _, rfl, by decide, by decide, run_runs _ _, ?_⟩,
    ⟨_, _, _, _, rfl, by decide, by decide, run_runs _ _, ?_⟩⟩
  · decide
  · decide

end Zester.Modules.SshAuth

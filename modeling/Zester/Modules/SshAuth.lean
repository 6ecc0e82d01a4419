import Zester.Lib.Supersede
import Zester.Modules.ManagedFile

/-! The states `ssh_auth.present` and `ssh_auth.absent`: one key of an `authorized_keys` file. -/
namespace Zester.Modules.SshAuth
open States

structure SshAuthTargetParam where
  user : String
  config : String
  deriving DecidableEq, Repr

structure SSHAuthPresent extends SshAuthTargetParam where
  id : String
  key : Text
  enc : Text
  comment : Text
  backup : Text := []
  backupSet : Bool := false
  created : Bool := false
  deriving DecidableEq, Repr

structure SSHAuthAbsent extends SshAuthTargetParam where
  id : String
  key : Text
  backup : Text := []
  backupSet : Bool := false
  deriving DecidableEq, Repr

def newSSHAuthPresent (id : String) (target : SshAuthTargetParam) (name enc comment : Text) :
    Except String SSHAuthPresent :=
  let key := trimSpace name
  if target.config = "" ∧ target.user = "" then
    .error ("ssh_auth.present: " ++ id ++ ": user or config path is required")
  else
    let checks :=
      [noControlChars "name" key, noWhitespace "enc" enc, noControlChars "comment" comment]
    match checks.findSome? fun chk => chk with
    | some chk => .error ("ssh_auth.present: " ++ id ++ ": " ++ chk)
    | none => .ok { target with id, key, enc, comment }

def newSSHAuthAbsent (id : String) (target : SshAuthTargetParam) (name : Text) :
    Except String SSHAuthAbsent :=
  if target.config = "" ∧ target.user = "" then
    .error ("ssh_auth.absent: " ++ id ++ ": user or config path is required")
  else .ok { target with id, key := trimSpace name }

def keyBlob (key : Text) : Text :=
  match fields key with
  | [] => key
  | [only] => only
  | _ :: second :: _ => second

def SSHAuthPresent.desiredLine (s : SSHAuthPresent) : Text :=
  if 2 ≤ (fields s.key).length then trimSpace s.key
  else [' '].intercalate (s.enc :: s.key :: if s.comment = [] then [] else [s.comment])

def lineHasKey (line keyBlob : Text) : Bool := keyBlob ≠ [] && (fields line).contains keyBlob

def isRemark (trimmed : Text) : Bool := trimmed = [] || trimmed.head? = some '#'

/-- The lines that the loops of both states take for lines of the key. -/
def matchesKey (keyBlob l : Text) : Bool :=
  let trimmed := trimSpace l
  !isRemark trimmed && lineHasKey trimmed keyBlob

def renderSSHAuthPresent (content keyBlob line : Text) : Text :=
  joinHostLines (supersede (matchesKey keyBlob) line false (splitHostLines content))

def renderSSHAuthAbsent (content keyBlob : Text) : Text :=
  joinHostLines ((splitHostLines content).filter (!matchesKey keyBlob ·))

section

-- the user database: the home directory of an account
variable (lookup : String → Except String String)

def resolveAuthKeysPath (target : SshAuthTargetParam) : Except String String :=
  if target.config ≠ "" then .ok target.config
  else if target.user = "" then .error "ssh_auth: user or config path is required"
  else
    match lookup target.user with
    | .error text => .error ("ssh_auth: lookup user " ++ target.user.quote ++ ": " ++ text)
    | .ok homeDir => .ok (joinPath [homeDir, ".ssh", "authorized_keys"])

def SSHAuthPresent.check (s : SSHAuthPresent) : FileProgram Text (Except String CheckResult) :=
  match resolveAuthKeysPath lookup s.toSshAuthTargetParam with
  | .error err => return .error err
  | .ok path => do
    match ← readManagedFile path with
    | .error err => return .error ("ssh_auth.present: read " ++ path ++ ": " ++ err.text)
    | .ok (current, _) =>
      if renderSSHAuthPresent current (keyBlob s.key) s.desiredLine = current then
        return .ok ⟨false, ""⟩
      else return .ok ⟨true, "ssh key should be present in " ++ path⟩

def SSHAuthPresent.apply (s : SSHAuthPresent) :
    FileProgram Text (Except String ApplyResult × SSHAuthPresent) :=
  match resolveAuthKeysPath lookup s.toSshAuthTargetParam with
  | .error err => return (.error err, s)
  | .ok path => do
    match ← .op (.mkdirAll (dirPath path) 0o700) with
    | .error err =>
      return (.error ("ssh_auth.present: mkdir " ++ dirPath path ++ ": " ++ err.text), s)
    | .ok () =>
      match ← readManagedFile path with
      | .error err => return (.error ("ssh_auth.present: read " ++ path ++ ": " ++ err.text), s)
      | .ok (current, existed) =>
        let s := { s with backup := current, backupSet := existed, created := !existed }
        let desired := renderSSHAuthPresent current (keyBlob s.key) s.desiredLine
        if desired = current then return (.ok ⟨false, "", []⟩, s)
        else
          match ← .op (.write path desired 0o600) with
          | .error err =>
            return (.error ("ssh_auth.present: write " ++ path ++ ": " ++ err.text), s)
          | .ok () =>
            return (.ok ⟨true, "added ssh key to " ++ path, [("path", path), ("user", s.user)]⟩, s)

def SSHAuthPresent.revert (s : SSHAuthPresent) : FileProgram Text (Except String ApplyResult) :=
  match resolveAuthKeysPath lookup s.toSshAuthTargetParam with
  | .error err => return .error err
  | .ok path => revertHostsFile path s.backup s.backupSet s.created 0o600 "ssh_auth.present"

def SSHAuthAbsent.check (s : SSHAuthAbsent) : FileProgram Text (Except String CheckResult) :=
  match resolveAuthKeysPath lookup s.toSshAuthTargetParam with
  | .error err => return .error err
  | .ok path => do
    match ← readManagedFile path with
    | .error err => return .error ("ssh_auth.absent: read " ++ path ++ ": " ++ err.text)
    | .ok (current, existed) =>
      if existed = false ∨ renderSSHAuthAbsent current (keyBlob s.key) = current then
        return .ok ⟨false, ""⟩
      else return .ok ⟨true, "ssh key should be absent from " ++ path⟩

def SSHAuthAbsent.apply (s : SSHAuthAbsent) :
    FileProgram Text (Except String ApplyResult × SSHAuthAbsent) :=
  match resolveAuthKeysPath lookup s.toSshAuthTargetParam with
  | .error err => return (.error err, s)
  | .ok path => do
    match ← readManagedFile path with
    | .error err => return (.error ("ssh_auth.absent: read " ++ path ++ ": " ++ err.text), s)
    | .ok (_, false) => return (.ok ⟨false, "", []⟩, s)
    | .ok (current, true) =>
      let s := { s with backup := current, backupSet := true }
      let desired := renderSSHAuthAbsent current (keyBlob s.key)
      if desired = current then return (.ok ⟨false, "", []⟩, s)
      else
        match ← .op (.write path desired 0o600) with
        | .error err => return (.error ("ssh_auth.absent: write " ++ path ++ ": " ++ err.text), s)
        | .ok () =>
          return (.ok ⟨true, "removed ssh key from " ++ path, [("path", path), ("user", s.user)]⟩,
            s)

def SSHAuthAbsent.revert (s : SSHAuthAbsent) : FileProgram Text (Except String ApplyResult) :=
  match resolveAuthKeysPath lookup s.toSshAuthTargetParam with
  | .error err => return .error err
  | .ok path => revertHostsFile path s.backup s.backupSet false 0o600 "ssh_auth.absent"

end

end Zester.Modules.SshAuth

import Zester.Bus.RevisionProofs
import Zester.StateFiles.Publisher

/-! What a publish that succeeds leaves in the bucket: its manifest and, unless the gate
took the stored manifest for a completed publish, its files. -/
namespace Zester.StateFiles
open Bus Publisher
open Discipline.Around (alone)

variable {p : Publisher}

def publisherAlone : Discipline Unit String String where
  regime := .failingWrites
  inv _ := True
  guar _ _ _ := True

def Stored (p : Publisher) (nonce : Nat) (files : List (Σ _ : String, String))
    (b : Bucket String String) : Prop :=
  ∀ file ∈ files, ∃ entry, b.get file.1 = some entry ∧
    p.stored nonce file.1 file.2 = .ok entry.value

theorem putFiles_spec (distinct : (files.map Sigma.fst).Nodup) :
    publisherAlone.Ensures ()
      (fun b' result => ∀ answer, result = .ok answer → Stored p nonce files b')
      b (p.putFiles wire nonce count files) := by
  -- the keys that are not in the list are left alone, so what was put stays
  suffices spec : publisherAlone.Ensures () (fun b' result => ∀ answer, result = .ok answer →
      Stored p nonce files b' ∧ Unmoved (· ∉ files.map Sigma.fst) b b') b
      (p.putFiles wire nonce count files) from
    spec.weaken fun b' result _ done answer ok => (done answer ok).1
  induction files generalizing b count with
  | nil => exact alone fun _ _ => ⟨by simp [Stored], .refl _ b⟩
  | cons file files ih =>
    obtain ⟨key, data⟩ := file
    obtain ⟨new, distinct⟩ := List.nodup_cons.mp distinct
    unfold putFiles
    split
    · exact .error
    rename_i value encodes
    refine .write (fun _ => rfl) (alone fun _ => ⟨trivial, trivial⟩) (alone fun _ => ?_)
      (alone fun _ b' text _ => .error)
    refine (ih distinct).weaken fun b' result _ done answer finished => ?_
    obtain ⟨stored, unmoved⟩ := done answer finished
    refine ⟨fun other member => ?_, fun k outside => ?_⟩
    · obtain rfl | member := List.mem_cons.mp member
      · exact ⟨⟨value, b.revision + 1⟩, by rw [unmoved key new, b.get_put_self], encodes⟩
      · exact stored other member
    · simp only [List.map_cons, List.mem_cons, not_or] at outside
      rw [unmoved k outside.2, Bucket.get_write_ne outside.1]

theorem deleteKeys_writes (files : FileSet) (keys : List String) :
    (deleteKeys files keys).Uses fun op =>
    ∀ message ∈ op.message?, message.key ∈ keys ∧ message.key ∉ files := by
  induction keys with
  | nil => trivial
  | cons key keys ih =>
    have rest :=
      ih.imp fun op own message made => (own message made).imp_left (List.mem_cons_of_mem key)
    unfold deleteKeys
    split
    · exact rest
    · rename_i stale
      exact ⟨by simp [Op.message?, stale], fun _ => rest⟩

theorem deleteKeys_spec :
    publisherAlone.Ensures () (fun b' _ => Unmoved (fun key => ¬(key ∈ keys ∧ key ∉ files)) b b') b
      (deleteKeys files keys) :=
  unmoved_of_uses (deleteKeys_writes files keys) (fun _ _ _ _ _ => ⟨trivial, trivial⟩) trivial

theorem deleteStaleKeys_spec : publisherAlone.Ensures ()
      (fun b' _ => Unmoved (fun key => key ∈ files ∨ key = keyRevision ∨ key = keyManifest) b b') b
      (deleteStaleKeys wire files) := by
  have nothing : publisherAlone.Ensures ()
      (fun b' _ => Unmoved (fun key => key ∈ files ∨ key = keyRevision ∨ key = keyManifest) b b') b
      (return ()) := alone (Unmoved.refl _ b)
  refine .keys (alone fun _ => ?_) (alone fun _ => ?_) (alone fun _ _ => nothing)
  · refine deleteKeys_spec.weaken fun b' _ _ same => same.mono fun key kept stale => ?_
    obtain rfl | rfl := kept.resolve_left stale.2 <;> simp at stale
  · exact deleteKeys_spec.weaken fun b' _ _ same => same.mono fun key kept => by simp

def HoldsManifest (encoded : String) (b : Bucket String String) : Prop :=
  ∃ entry, b.get keyManifest = some entry ∧ entry.value = encoded

/-- The bucket holds the files of an attempt that do not have a name of the bookkeeping. -/
def HoldsFiles (p : Publisher) (attempt : Attempt) (b : Bucket String String) : Prop :=
  Stored p attempt.nonce
    (attempt.files.entries.filter fun file => file.1 ≠ keyRevision ∧ file.1 ≠ keyManifest) b

theorem publishBatch_spec : publisherAlone.Ensures ()
    (fun b' result => ∀ answer, result = .ok answer → HoldsManifest encoded b' ∧
      HoldsFiles p attempt b') b (p.publishBatch wire attempt encoded) := by
  have distinct : ((attempt.it.order [0] attempt.files.entries).map Sigma.fst).Nodup :=
    ((attempt.it.perm [0] attempt.files.entries).map Sigma.fst).nodup_iff.mpr
      attempt.files.nodupKeys
  refine .bind trivial (putFiles_spec distinct) ?_
  rintro b₁ (text | count) - - put
  · exact .error
  have stored := put count rfl
  refine .write (fun _ => rfl) (alone fun _ => ⟨trivial, trivial⟩) (alone fun _ => ?_)
    (alone fun _ b' text _ => .error)
  refine .bind trivial (bumpRevision_unmoved (fun _ _ _ => ⟨trivial, trivial⟩) trivial) ?_
  rintro b₂ (text | ⟨⟩) - - bumped
  · exact .error
  refine .bind trivial deleteStaleKeys_spec fun b₃ _ _ _ deleted => alone fun _ _ => ?_
  constructor
  · refine ⟨⟨encoded, b₁.revision + 1⟩, ?_, rfl⟩
    rw [deleted keyManifest (.inr (.inr rfl)), bumped keyManifest (by decide), Bucket.get_put_self]
  · intro file member
    simp only [List.mem_filter, decide_eq_true_eq] at member
    obtain ⟨member, notRevision, notManifest⟩ := member
    obtain ⟨entry, held, encodes⟩ := stored file (attempt.it.mem_order [0] |>.mpr member)
    have listed : file.1 ∈ attempt.files := AList.mem_keys.mpr (List.mem_map_of_mem member)
    refine ⟨entry, ?_, encodes⟩
    rw [deleted _ (.inl listed), bumped _ notRevision, Bucket.get_write_ne notManifest, held]

theorem hashGate_eq (encoded : String) (manifest : List ManifestFile) : hashGate encoded manifest =
      completedGate keyManifest encoded (manifest.map ManifestFile.key) := by
  simp only [completedGate, List.all_map, Function.comp_def]
  rfl

theorem hashGate_spec (encoded : String) (manifest : List ManifestFile) :
    publisherAlone.Ensures () (fun b' result => b' = b ∧
      (result = true ↔ Completed keyManifest encoded (manifest.map ManifestFile.key) b)) b
      (hashGate encoded manifest) := by
  rw [hashGate_eq]
  exact completedGate_spec keyManifest encoded _ fun op read fails =>
    absurd (read.symm.trans fails) Bool.false_ne_true

theorem checkEmpty_reads : (p.checkEmpty wire files).Uses fun op => op.isWrite = false := by
  unfold checkEmpty
  split
  · refine .bind ⟨rfl, fun reply => ?_⟩ fun listed => ?_
    · obtain (_ | _ | _ | _ | _) | keys := reply <;> exact trivial
    · obtain text | _ | ⟨key, keys⟩ := listed <;> exact trivial
  · exact trivial

/-- The gate takes the stored manifest for a completed publish of the same files. -/
def Gated (p : Publisher) (wire : Wire) (attempt : Attempt) (b : Bucket String String) : Prop :=
  attempt.force = false ∧ ∃ encoded,
    wire.encode (buildManifestWith attempt.files p.hashFn) = .ok encoded ∧
    Completed keyManifest encoded
      ((buildManifestWith attempt.files p.hashFn).map ManifestFile.key) b

theorem publishFiles_spec : publisherAlone.Ensures ()
    (fun b' result => ∀ answer, result = .ok answer → ∃ encoded,
      wire.encode (buildManifestWith attempt.files p.hashFn) = .ok encoded ∧
      HoldsManifest encoded b' ∧
      ((Gated p wire attempt b ∧ b' = b) ∨ (¬ Gated p wire attempt b ∧ HoldsFiles p attempt b')))
    b (p.publishFiles wire attempt) := by
  refine .bind trivial (.of_reads checkEmpty_reads) ?_
  rintro _ (text | ⟨⟩) - - same
  · exact .error
  rw [same]
  dsimp only
  split
  · exact .error
  rename_i encoded encodes
  simp only [encodes, Except.ok.injEq, exists_eq_left']
  cases forced : attempt.force with
  | true =>
    refine publishBatch_spec.weaken fun b' result _ done answer ok => ?_
    obtain ⟨manifest, files⟩ := done answer ok
    exact ⟨manifest, .inr ⟨fun gated => by simp [Gated, forced] at gated, files⟩⟩
  | false =>
    have gates : Gated p wire attempt b ↔ Completed keyManifest encoded
        ((buildManifestWith attempt.files p.hashFn).map ManifestFile.key) b := by
      simp [Gated, forced, encodes]
    refine .bind trivial (hashGate_spec encoded (buildManifestWith attempt.files p.hashFn)) ?_
    rintro _ (_ | _) - - ⟨same, gate⟩ <;> rw [same]
    · refine publishBatch_spec.weaken fun b' result _ done answer ok => ?_
      obtain ⟨manifest, files⟩ := done answer ok
      exact ⟨manifest, .inr ⟨fun gated =>
        absurd (gate.mpr (gates.mp gated)) Bool.false_ne_true, files⟩⟩
    · refine alone fun answer _ => ?_
      have completed := gate.mp rfl
      obtain ⟨stored, -, held, same, -⟩ := completed
      exact ⟨⟨stored, held, same⟩, .inl ⟨gates.mpr (gate.mp rfl), rfl⟩⟩

end Zester.StateFiles

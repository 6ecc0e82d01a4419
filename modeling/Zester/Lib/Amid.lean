import Zester.Lib.Program

/-! The accesses that one program makes while others work on the same bucket. -/
open Function Bucket

structure Access (κ β : Type) : Type 1 where
  {ρ : Type}
  op : Op κ β ρ
  before : Bucket κ β
  reply : Except Refusal ρ

section
variable [DecidableEq ι] [DecidableEq κ]

/-- A run of all programs, with the accesses of one of them. -/
inductive System.Makes (regime : Regime κ β) (i : ι) :
    System ι κ β results → List (Access κ β) → System ι κ β results → Prop where
  | refl (s : System ι κ β results) : Makes regime i s [] s
  | own {s s' : System ι κ β results} {accesses : List (Access κ β)} {ρ : Type} {op : Op κ β ρ}
      {next : Except Refusal ρ → Program κ β (results i)} {reply : Except Refusal ρ}
        {b' : Bucket κ β}
      (here : s.programs i = .call op next) (permitted : regime.permits s.bucket op)
      (yields : regime.Yields op s.bucket reply b')
      (rest : Makes regime i ⟨b', update s.programs i (next reply)⟩ accesses s') :
      Makes regime i s (⟨op, s.bucket, reply⟩ :: accesses) s'
  | other {s s' : System ι κ β results} {accesses : List (Access κ β)} {j : ι} {b' : Bucket κ β}
      {p' : Program κ β (results j)} (different : j ≠ i)
      (step : regime.Step (s.bucket, s.programs j) (b', p'))
      (rest : Makes regime i ⟨b', update s.programs j p'⟩ accesses s') :
        Makes regime i s accesses s'

/-- A program comes to the result with these accesses, while the bucket grows between them. -/
inductive Program.Amid (regime : Regime κ β) :
    Bucket κ β → Program κ β α → List (Access κ β) → α → Prop where
  | done {b : Bucket κ β} {a : α} : Amid regime b (.done a) [] a
  | call {b b₁ b₂ : Bucket κ β} {ρ : Type} {op : Op κ β ρ} {next : Except Refusal ρ → Program κ β α}
      {reply : Except Refusal ρ} {accesses : List (Access κ β)} {a : α} (later : b ≤ b₁)
      (yields : regime.Yields op b₁ reply b₂) (rest : Amid regime b₂ (next reply) accesses a) :
      Amid regime b (.call op next) (⟨op, b₁, reply⟩ :: accesses) a

variable {regime : Regime κ β}

theorem Program.Amid.of_le (later : b ≤ b') (amid : Program.Amid regime b' p accesses a) :
    Program.Amid regime b p accesses a := by
  cases amid with
  | done => exact .done
  | call first yields rest => exact .call (le_trans later first) yields rest

theorem Program.Amid.bind
    (amid : Program.Amid regime b (p >>= f) accesses c) :
    ∃ first rest a b', accesses = first ++ rest ∧ Program.Amid regime b p first a ∧
      Program.Amid regime b' (f a) rest c := by
  induction p generalizing b accesses with
  | done a => exact ⟨[], accesses, a, b, rfl, .done, amid⟩
  | call op next ih =>
    cases amid with
    | call later yields amid =>
      obtain ⟨first, rest, a, b', rfl, before, after⟩ := ih _ amid
      exact ⟨_ :: first, rest, a, b', rfl, .call later yields before, after⟩

theorem Program.Amid.map {g : α → γ}
    (amid : Program.Amid regime b (p >>= fun a => .done (g a)) accesses c) :
    ∃ a, Program.Amid regime b p accesses a ∧ g a = c := by
  obtain ⟨first, rest, a, b', rfl, before, after⟩ := amid.bind
  cases after with
  | done => exact ⟨a, by simpa using before, rfl⟩

theorem Program.Amid.uses (amid : Program.Amid regime b p accesses a)
    (allowed : {ρ : Type} → Op κ β ρ → Prop) (uses : p.Uses allowed) :
    ∀ access ∈ accesses, allowed access.op := by
  induction amid with
  | done => simp
  | call _ _ _ ih =>
    exact List.forall_mem_cons.mpr ⟨uses.1, ih (uses.2 _)⟩

theorem System.Makes.reaches {s s' : System ι κ β results}
    (makes : System.Makes regime i s accesses s') : s.Reaches regime s' := by
  induction makes with
  | refl s => exact .refl
  | own here permitted yields _ ih => exact .head (.step i (here ▸ .call permitted yields)) ih
  | other different step _ ih => exact .head (.step _ step) ih

theorem System.Makes.le {s s' : System ι κ β results}
    (makes : System.Makes regime i s accesses s') : s.bucket ≤ s'.bucket := by
  induction makes with
  | refl s => exact le_refl _
  | own _ _ yields _ ih => exact le_trans yields.le ih
  | other _ step _ ih => exact le_trans step.le ih

/-- An access was answered, and what it made of the bucket is still in the log. -/
theorem System.Makes.made {s s' : System ι κ β results}
    (makes : System.Makes regime i s accesses s') (member : access ∈ accesses) :
    ∃ b', regime.Yields access.op access.before access.reply b' ∧ b' ≤ s'.bucket := by
  induction makes with
  | refl s => contradiction
  | own here permitted yields rest ih =>
    obtain rfl | member := List.mem_cons.mp member
    · exact ⟨_, yields, rest.le⟩
    · exact ih member
  | other different step _ ih => exact ih member

/-- A program that has finished in a run of all of them has run amid the others. -/
theorem System.Makes.amid {s s' : System ι κ β results}
    (makes : System.Makes regime i s accesses s')
    (finished : s'.programs i = .done a) :
    Program.Amid regime s.bucket (s.programs i) accesses a := by
  induction makes with
  | refl s => exact finished ▸ .done
  | own here _ yields _ ih =>
    rw [here]
    exact .call (le_refl _) yields (by simpa using ih finished)
  | other different step _ ih =>
    have amid := ih finished
    simp only [update_of_ne (Ne.symm different)] at amid
    exact amid.of_le step.le

end

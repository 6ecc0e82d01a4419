import Mathlib.Data.List.TakeWhile
import Zester.Enroll.PeelID
import Zester.Target.Matcher

/-! Globs without character classes and escapes. They are all well formed, and the matcher does not
mind which characters a pattern and a name are written in. -/
namespace Zester.Target
open List Option

/-- No character classes and no escapes. -/
def Plain (pattern : List Char) : Prop := ∀ c ∈ pattern, c ≠ '[' ∧ c ≠ '\\'

theorem Plain.mono (plain : Plain pattern) (sub : pattern' ⊆ pattern) : Plain pattern' :=
  fun c member => plain c (sub member)

def fits (c d : Char) : Bool := if c = '?' then d ≠ '/' else c = d

/-- `matchChunk` for a plain chunk. -/
def walk : List Char → List Char → Remaining
  | [], name => some name
  | _ :: _, [] => none
  | c :: chunk, d :: name => if fits c d then walk chunk name else none

/-- `skipStar` for a plain chunk. -/
def skip (chunk : List Char) (last : Bool) : List Char → Remaining
  | [] => none
  | c :: name =>
    if c = '/' then none
    else ((walk chunk name).filter fun rest => !last || rest.isEmpty).or (skip chunk last name)

def starred (pattern : List Char) : Bool := pattern.head? = some '*'

def firstChunk (pattern : List Char) : List Char :=
  (pattern.dropWhile (· = '*')).takeWhile (· ≠ '*')

def laterChunks (pattern : List Char) : List Char :=
  (pattern.dropWhile (· = '*')).dropWhile (· ≠ '*')

/-- What the first chunk of a plain pattern leaves of the name. -/
def advance (pattern name : List Char) : Remaining :=
  ((walk (firstChunk pattern) name).filter fun left => left.isEmpty ||
    !(laterChunks pattern).isEmpty).or
    (if starred pattern then skip (firstChunk pattern) (laterChunks pattern).isEmpty name else none)

theorem matchChunk_plain (plain : Plain chunk) (enough : chunk.length < fuel) (s : Remaining) :
    matchChunk fuel chunk s = some (s.bind (walk chunk)) := by
  induction chunk generalizing fuel s with
  | nil =>
    obtain ⟨fuel, rfl⟩ := Nat.exists_eq_add_of_lt enough
    cases s <;> rfl
  | cons c chunk ih =>
    obtain ⟨⟨bracket, escape⟩, plain⟩ := forall_mem_cons.mp plain
    obtain ⟨fuel, rfl⟩ := Nat.exists_eq_add_of_lt enough
    have goes := fun s => @ih (chunk.length + 1 + fuel) plain (by omega) s
    by_cases any : c = '?'
    · obtain _ | _ | ⟨d, name⟩ := s
      · simp [matchChunk, any, goes]
      · simp [matchChunk, any, goes, walk]
      · by_cases separator : d = '/' <;> simp [matchChunk, any, separator, goes, walk, fits]
    · obtain _ | _ | ⟨d, name⟩ := s
      · simp [matchChunk, bracket, escape, any, goes]
      · simp [matchChunk, bracket, escape, any, goes, walk]
      · by_cases same : d = c
        · simp [matchChunk, bracket, escape, any, same, goes, walk, fits]
        · simp [matchChunk, bracket, escape, any, same, Ne.symm same, goes, walk, fits]

theorem matchesChunk_plain (plain : Plain chunk) :
    matchesChunk chunk name = some (walk chunk name) :=
  matchChunk_plain plain (Nat.lt_succ_self _) (some name)

theorem skipStar_plain (plain : Plain chunk) (last : Bool) :
    skipStar chunk last name = some (skip chunk last name) := by
  induction name with
  | nil => rfl
  | cons c name ih =>
    simp only [skipStar, skip, matchesChunk_plain plain, ih]
    split
    · rfl
    · cases walk chunk name with
      | none => rfl
      | some rest => cases last <;> cases rest <;> rfl

theorem scanChunk_plain (plain : Plain pattern) :
    scanChunk false pattern = (pattern.takeWhile (· ≠ '*'), pattern.dropWhile (· ≠ '*')) := by
  induction pattern with
  | nil => rfl
  | cons c pattern ih =>
    obtain ⟨⟨bracket, escape⟩, plain⟩ := forall_mem_cons.mp plain
    by_cases star : c = '*' <;> simp [scanChunk, star, bracket, escape, ih plain]

theorem scanChunk_parts (plain : Plain pattern) :
    scanChunk false (pattern.dropWhile (· = '*')) = (firstChunk pattern, laterChunks pattern) :=
  scanChunk_plain (plain.mono (dropWhile_sublist _).subset)

theorem firstChunk_subset (pattern : List Char) : firstChunk pattern ⊆ pattern :=
  ((takeWhile_sublist _).trans (dropWhile_sublist _)).subset

theorem laterChunks_subset (pattern : List Char) : laterChunks pattern ⊆ pattern :=
  ((dropWhile_sublist _).trans (dropWhile_sublist _)).subset

theorem mem_parts (member : c ∈ pattern) :
    c = '*' ∨ c ∈ firstChunk pattern ∨ c ∈ laterChunks pattern := by
  rw [← takeWhile_append_dropWhile (p := (· = '*')) (l := pattern), mem_append] at member
  refine member.imp (fun star => by simpa using mem_takeWhile_imp star) fun behind => ?_
  rwa [← takeWhile_append_dropWhile (p := (· ≠ '*')) (l := pattern.dropWhile _),
    mem_append] at behind

theorem laterChunks_cons (c : Char) (pattern : List Char) :
    laterChunks (c :: pattern) = laterChunks pattern ∧
      firstChunk (c :: pattern) = firstChunk pattern ∨
      laterChunks (c :: pattern) = pattern.dropWhile (· ≠ '*') ∧
        firstChunk (c :: pattern) ≠ [] := by
  by_cases star : c = '*' <;> simp [laterChunks, firstChunk, star]

theorem laterChunks_length (nonempty : pattern ≠ []) :
    (laterChunks pattern).length < pattern.length := by
  obtain ⟨c, pattern, rfl⟩ := exists_cons_of_ne_nil nonempty
  rw [length_cons, Nat.lt_succ_iff]
  obtain ⟨later, -⟩ | ⟨later, -⟩ := laterChunks_cons c pattern <;> rw [later]
  · exact (dropWhile_sublist _).length_le.trans (dropWhile_sublist _).length_le
  · exact (dropWhile_sublist _).length_le

theorem laterChunks_of_bare (bare : firstChunk pattern = []) : laterChunks pattern = [] := by
  induction pattern with
  | nil => rfl
  | cons c pattern ih =>
    obtain ⟨later, first⟩ | ⟨-, filled⟩ := laterChunks_cons c pattern
    · rw [later]
      exact ih (first ▸ bare)
    · exact absurd bare filled

theorem validChunks_plain (plain : Plain pattern) (enough : pattern.length < fuel) :
    validChunks fuel pattern = some () := by
  induction fuel generalizing pattern with
  | zero => omega
  | succ fuel ih =>
    cases pattern with
    | nil => rfl
    | cons c pattern =>
      have shorter := laterChunks_length (cons_ne_nil c pattern)
      have rest := ih (plain.mono (laterChunks_subset _)) (by omega)
      rw [validChunks, scanChunk_parts plain]
      · show (matchesChunk (firstChunk (c :: pattern)) []).bind _ = _
        rw [matchesChunk_plain (plain.mono (firstChunk_subset _))]
        exact rest
      · simp

theorem matchPattern_step (plain : Plain pattern) (nonempty : pattern ≠ [])
    (enough : pattern.length ≤ fuel) : matchPattern (fuel + 1) pattern name =
      if starred pattern ∧ firstChunk pattern = [] then some (!name.contains '/')
      else match advance pattern name with
        | some left => matchPattern fuel (laterChunks pattern) left
        | none => some false := by
  have shorter := laterChunks_length nonempty
  have valid :=
    validChunks_plain (plain.mono (laterChunks_subset _)) (Nat.lt_of_lt_of_le shorter enough)
  have chunk := plain.mono (firstChunk_subset pattern)
  rw [matchPattern, scanChunk_parts plain]
  · simp only [starred, decide_eq_true_eq]
    split
    · rfl
    rw [matchesChunk_plain chunk, advance]
    simp only [bind_eq_bind, bind_some]
    cases (walk (firstChunk pattern) name).filter _ with
    | some left => rfl
    | none =>
      by_cases star : pattern.head? = some '*'
      · simp only [starred, star, decide_true, if_true, skipStar_plain chunk, bind_some, none_or]
        cases skip (firstChunk pattern) (laterChunks pattern).isEmpty name with
        | some left => rfl
        | none => simp [valid]
      · simp [starred, star, valid]
  · exact nonempty

theorem walk_some (walked : walk chunk name = some left) :
    left <:+ name ∧ ∀ c ∈ chunk, c = '?' ∨ c ∈ name := by
  induction chunk generalizing name with
  | nil =>
    cases walked
    exact ⟨suffix_rfl, by simp⟩
  | cons c chunk ih =>
    cases name with
    | nil => contradiction
    | cons d name =>
      rw [walk] at walked
      split at walked
      · rename_i fit
        obtain ⟨suffix, literals⟩ := ih walked
        refine ⟨suffix.trans (suffix_cons d name), forall_mem_cons.mpr ⟨?_, ?_⟩⟩
        · by_cases any : c = '?'
          · exact .inl any
          · simp only [fits, any, if_false, decide_eq_true_eq] at fit
            exact .inr (fit ▸ mem_cons_self)
        · exact fun c' member => (literals c' member).imp_right (mem_cons_of_mem d)
      · contradiction

theorem skip_some (skipped : skip chunk last name = some left) :
    ∃ behind, behind <:+ name ∧ walk chunk behind = some left := by
  induction name with
  | nil => contradiction
  | cons d name ih =>
    rw [skip] at skipped
    split at skipped
    · contradiction
    · obtain met | ⟨-, skipped⟩ := or_eq_some_iff.mp skipped
      · exact ⟨name, suffix_cons d name, (filter_eq_some_iff.mp met).1⟩
      · obtain ⟨behind, suffix, walked⟩ := ih skipped
        exact ⟨behind, suffix.trans (suffix_cons d name), walked⟩

theorem advance_some (advanced : advance pattern name = some left) :
    left <:+ name ∧ ∀ c ∈ firstChunk pattern, c = '?' ∨ c ∈ name := by
  obtain met | ⟨-, skipped⟩ := or_eq_some_iff.mp advanced
  · exact walk_some (filter_eq_some_iff.mp met).1
  split at skipped
  · obtain ⟨behind, suffix, walked⟩ := skip_some skipped
    obtain ⟨suffix', literals⟩ := walk_some walked
    exact ⟨suffix'.trans suffix, fun c member => (literals c member).imp_right (suffix.subset ·)⟩
  · contradiction

/-- Dots become underscores, and underscores dots. -/
def swapDots : Char ≃ Char := Equiv.swap '.' '_'

theorem swapDots_fixed (dot : d ≠ '.') (underscore : d ≠ '_') (c : Char) :
    swapDots c = d ↔ c = d := by
  rw [← swapDots.apply_eq_iff_eq (x := c) (y := d), swapDots,
    Equiv.swap_apply_of_ne_of_ne dot underscore]

theorem swapDots_parts (pattern : List Char) : starred (pattern.map swapDots) = starred pattern ∧
      firstChunk (pattern.map swapDots) = (firstChunk pattern).map swapDots ∧
      laterChunks (pattern.map swapDots) = (laterChunks pattern).map swapDots := by
  have star := swapDots_fixed (d := '*') (by decide) (by decide)
  refine ⟨?_, ?_, ?_⟩
  · cases pattern <;> simp [starred, star]
  · simp [firstChunk, takeWhile_map, dropWhile_map, Function.comp_def, star]
  · simp [laterChunks, dropWhile_map, Function.comp_def, star]

theorem walk_swapDots (chunk name : List Char) :
    walk (chunk.map swapDots) (name.map swapDots) = (walk chunk name).map (map swapDots) := by
  induction chunk generalizing name with
  | nil => rfl
  | cons c chunk ih =>
    cases name with
    | nil => rfl
    | cons d name =>
      have same : fits (swapDots c) (swapDots d) = fits c d := by
        simp only [fits, swapDots_fixed (d := '?') (by decide) (by decide),
          swapDots.apply_eq_iff_eq, ne_eq, swapDots_fixed (d := '/') (by decide) (by decide)]
      simp only [map_cons, walk, same, ih]
      split <;> rfl

theorem filter_swapDots (o : Remaining) (last : Bool) :
    (o.map (map swapDots)).filter (fun rest => last || rest.isEmpty) =
      (o.filter fun rest => last || rest.isEmpty).map (map swapDots) := by
  cases o with
  | none => rfl
  | some rest => cases last <;> cases rest <;> rfl

theorem skip_swapDots (chunk name : List Char) (last : Bool) :
    skip (chunk.map swapDots) last (name.map swapDots) =
      (skip chunk last name).map (map swapDots) := by
  induction name with
  | nil => rfl
  | cons d name ih =>
    simp only [map_cons, skip, swapDots_fixed (d := '/') (by decide) (by decide), walk_swapDots, ih,
      filter_swapDots]
    split
    · rfl
    · rw [map_or]

theorem advance_swapDots (pattern name : List Char) :
    advance (pattern.map swapDots) (name.map swapDots) =
      (advance pattern name).map (map swapDots) := by
  obtain ⟨star, first, later⟩ := swapDots_parts pattern
  simp only [advance, star, first, later, walk_swapDots, skip_swapDots, isEmpty_map,
    Bool.or_comm _ (!_), filter_swapDots, map_or]
  split <;> rfl

/-- A plain pattern is well formed, matches as before after the renaming, and if it matches then
its other characters are in the name. -/
theorem matchPattern_plain (plain : Plain pattern) (enough : pattern.length < fuel)
    (name : List Char) : ∃ answer, matchPattern fuel pattern name = some answer ∧
      matchPattern fuel (pattern.map swapDots) (name.map swapDots) = some answer ∧
      (answer = true → ∀ c ∈ pattern, c = '*' ∨ c = '?' ∨ c ∈ name) := by
  induction fuel generalizing pattern name with
  | zero => omega
  | succ fuel ih =>
    by_cases nonempty : pattern = []
    · subst nonempty
      exact ⟨name.isEmpty, by simp [matchPattern]⟩
    obtain ⟨star, first, later⟩ := swapDots_parts pattern
    have shorter := laterChunks_length nonempty
    have plain' : Plain (pattern.map swapDots) := by
      intro c member
      obtain ⟨d, inside, rfl⟩ := mem_map.mp member
      simpa [swapDots_fixed] using plain d inside
    rw [matchPattern_step plain nonempty (by omega),
      matchPattern_step plain' (by simpa using nonempty)
      (by simpa using Nat.le_of_lt_succ enough), star, first, later, advance_swapDots]
    simp only [map_eq_nil_iff]
    split
    · rename_i bare
      refine ⟨_, rfl, by simp [swapDots_fixed], fun _ c member => .inl ?_⟩
      simpa [bare.2, laterChunks_of_bare bare.2] using mem_parts member
    · cases advanced : advance pattern name with
      | none => exact ⟨false, rfl, rfl, by simp⟩
      | some left =>
        obtain ⟨suffix, literals⟩ := advance_some advanced
        obtain ⟨answer, valid, renamed, rest⟩ :=
          ih (plain.mono (laterChunks_subset _)) (by omega) left
        refine ⟨answer, valid, renamed, fun yes c member => ?_⟩
        obtain star | here | later := mem_parts member
        · exact .inl star
        · exact .inr (literals c here)
        · exact (rest yes c later).imp_right (Or.imp_right fun inside => suffix.subset inside)

theorem newGlobMatcher_plain (plain : Plain glob.toList) (nonempty : glob ≠ "") :
    newGlobMatcher glob = .ok (.glob glob (sanitizeGlobDots glob)) := by
  have size : glob.toList.length < glob.length + 1 :=
    Nat.lt_succ_of_le (Nat.le_of_eq String.length_toList)
  obtain ⟨answer, valid, -⟩ := matchPattern_plain plain size []
  have known : filepathMatch glob "" = some answer := valid
  rw [newGlobMatcher, if_neg nonempty, known]

open Enroll

theorem outside_plain (plain : Plain pattern) :
    sanitizeGlobDots.outside pattern = pattern.map encodeChar := by
  induction pattern with
  | nil => rfl
  | cons c pattern ih =>
    obtain ⟨⟨bracket, escape⟩, plain⟩ := forall_mem_cons.mp plain
    by_cases dot : c = '.'
    · simp [sanitizeGlobDots.outside, dot, encodeChar, ih plain]
    · simp [sanitizeGlobDots.outside, dot, bracket, escape, encodeChar, ih plain]

theorem map_swapDots (text : List Char) (free : '_' ∉ text) :
    text.map swapDots = text.map encodeChar := by
  refine map_congr_left fun c member => ?_
  have other : c ≠ '_' := fun same => free (same ▸ member)
  by_cases dot : c = '.'
  · simp [dot, swapDots, encodeChar]
  · rw [swapDots, Equiv.swap_apply_of_ne_of_ne dot other, encodeChar, if_neg dot]

/-- A glob without classes and escapes that matches a host name makes a matcher, and this matches
the peel ID of the host. -/
theorem glob_hits_peel (lib : Library) (facts : Facts) {glob host : String}
    (plain : Plain glob.toList)
    (named : IsHostName host) (short : host.length ≤ 128)
    (matched : filepathMatch glob host = some true) :
    ∃ m, newGlobMatcher glob = .ok m ∧ m.accepts lib (sanitizePeelID host) facts = true := by
  have size : glob.toList.length < glob.length + 1 :=
    Nat.lt_succ_of_le (Nat.le_of_eq String.length_toList)
  obtain ⟨answer, here, renamed, literals⟩ := matchPattern_plain plain size host.toList
  obtain rfl : answer = true := Option.some.inj (here.symm.trans matched)
  have clean : '_' ∉ host.toList := fun member => by simpa using named.encodable.letters '_' member
  have dotNorm : filepathMatch (sanitizeGlobDots glob) (sanitizePeelID host) = some true := by
    have peelID := sanitizePeelID_eq named.encodable (String.length_toList ▸ short)
    rw [String.ofList_toList] at peelID
    rw [map_swapDots _ clean,
      map_swapDots _ fun member => by simpa [clean] using literals rfl '_' member] at renamed
    rw [peelID, sanitizeGlobDots, outside_plain plain, filepathMatch]
    simpa [String.length_toList] using renamed
  have nonempty : glob ≠ "" := by
    rintro rfl
    obtain ⟨c, rest, cons, -⟩ := named.encodable.first
    simp [filepathMatch, matchPattern, cons] at matched
  refine ⟨_, newGlobMatcher_plain plain nonempty, ?_⟩
  by_cases same : sanitizeGlobDots glob = glob
  · rw [same] at dotNorm
    simp [Matcher.accepts, dotNorm]
  · simp [Matcher.accepts, dotNorm, same]

/-- A glob with a dot, and the peel of a host with dots. -/
theorem glob_hits_web : ∃ m, newGlobMatcher "web-?.example.*" = .ok m ∧
    m.accepts ⟨fun _ => .error "", fun _ _ => false, fun _ _ => none⟩
      (sanitizePeelID "web-1.example.org") none = true :=
  glob_hits_peel _ none (by simp [Plain]) isHostName_web (by decide) (by decide)

end Zester.Target

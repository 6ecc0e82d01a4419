import Zester.Text

/-! Where paths lead. Cleaning a path works on its parts: `..` takes away the part
before it, and only a path that climbs above its start keeps some of them. -/
namespace Zester
open List
open String hiding append_assoc back front intercalate length_append

def dotDot : Text := ['.', '.']

/-- A name that a directory entry can have. -/
structure IsName (part : Text) : Prop where
  nonempty : part ≠ []
  notDot : part ≠ ['.']
  notDotDot : part ≠ dotDot
  slashless : '/' ∉ part

/-- The cleaned parts of a path, the last one first. -/
def cleanParts (rooted : Bool) (path : Text) : List Text :=
  (path.splitOn '/').foldl (cleanPart rooted) []

/-- The directory entries that a path goes through; a path from the root starts with
an empty name. -/
def place (path : Text) : List Text :=
  if path.head? = some '/' then [] :: (cleanParts true path).reverse
  else (cleanParts false path).reverse

def relParts (rel : String) : List Text := (cleanParts false rel.toList).reverse

def climbs (rel : String) : Bool := (relParts rel).contains dotDot

/-- `filepath.Base`. -/
def basePath (path : String) : String :=
  if path = "" then "."
  else
    match (path.toList.reverse.dropWhile (· = '/')).takeWhile (· ≠ '/') with
    | [] => "/"
    | base => ofList base.reverse

/-- The path of a new entry of a directory, as `os.MkdirTemp` and `os.CreateTemp` build it. -/
def entryPath (dir name : String) : String :=
  if dir.toList.getLast? = some '/' then dir ++ name else dir ++ "/" ++ name

section
variable {parts : List Text}

theorem cleanPart_name (name : IsName part) : cleanPart rooted out part = part :: out := by
  unfold cleanPart
  rw [if_neg (not_or.mpr ⟨name.nonempty, name.notDot⟩),
    if_neg (show part ≠ ['.', '.'] from name.notDotDot)]

theorem foldl_names (names : ∀ part ∈ parts, IsName part) :
    parts.foldl (cleanPart rooted) out = parts.reverse ++ out := by
  induction parts generalizing out with
  | nil => rfl
  | cons part parts ih =>
    rw [foldl_cons, cleanPart_name (names part (by simp)),
      ih fun other member => names other (by simp [member])]
    simp

/-- Names after some `..`, of which a path from the root has none; the last part first. -/
def Cleaned (rooted : Bool) (out : List Text) : Prop :=
  ∃ names climbed, out = names ++ replicate climbed dotDot ∧ (∀ part ∈ names, IsName part) ∧
    (rooted = true → climbed = 0)

theorem Cleaned.step (cleaned : Cleaned rooted out) (slashless : '/' ∉ part) :
    Cleaned rooted (cleanPart rooted out part) := by
  obtain ⟨names, climbed, rfl, proper, root⟩ := cleaned
  by_cases skip : part = [] ∨ part = ['.']
  · unfold cleanPart
    rw [if_pos skip]
    exact ⟨names, climbed, rfl, proper, root⟩
  by_cases up : part = dotDot
  · subst up
    unfold cleanPart
    rw [if_neg skip, if_pos (show dotDot = ['.', '.'] from rfl)]
    cases names with
    | cons name names =>
      have stays : name ≠ dotDot := (proper name (by simp)).notDotDot
      simp only [cons_append, stays, if_false]
      exact ⟨names, climbed, rfl, fun part member => proper part (by simp [member]), root⟩
    | nil =>
      cases climbed with
      | zero =>
        cases rooted with
        | true => exact ⟨[], 0, rfl, by simp, fun _ => rfl⟩
        | false => exact ⟨[], 1, rfl, by simp, by simp⟩
      | succ climbed =>
        refine ⟨[], climbed + 2, ?_, by simp, fun isRooted => absurd (root isRooted) (by simp)⟩
        simp [replicate_succ]
  · have name : IsName part :=
      ⟨fun empty => skip (.inl empty), fun dot => skip (.inr dot), up, slashless⟩
    rw [cleanPart_name name]
    exact ⟨part :: names, climbed, rfl, forall_mem_cons.mpr ⟨name, proper⟩, root⟩

theorem cleaned_foldl (cleaned : Cleaned rooted out) (slashless : ∀ part ∈ parts, '/' ∉ part) :
    Cleaned rooted (parts.foldl (cleanPart rooted) out) := by
  induction parts generalizing out with
  | nil => exact cleaned
  | cons part parts ih =>
    exact ih (cleaned.step (slashless part (by simp))) fun other member =>
      slashless other (by simp [member])

theorem cleaned_cleanParts (rooted : Bool) (path : Text) :
    Cleaned rooted (cleanParts rooted path) :=
  cleaned_foldl ⟨[], 0, rfl, by simp, fun _ => rfl⟩ fun _ member => not_mem_of_mem_splitOn member

theorem foldl_climbed (climbed : Nat) :
    (replicate climbed dotDot).foldl (cleanPart false) [] = replicate climbed dotDot := by
  induction climbed with
  | zero => rfl
  | succ climbed ih =>
    rw [replicate_succ', foldl_append, ih, ← replicate_succ']
    cases climbed with
    | zero => rfl
    | succ climbed => simp [cleanPart, replicate_succ, dotDot]

theorem Cleaned.foldl (cleaned : Cleaned rooted out) :
    out.reverse.foldl (cleanPart rooted) [] = out := by
  obtain ⟨names, climbed, rfl, proper, root⟩ := cleaned
  have dots : (replicate climbed dotDot).foldl (cleanPart rooted) [] =
      replicate climbed dotDot := by
    cases rooted with
    | true => simp [root rfl]
    | false => exact foldl_climbed climbed
  rw [reverse_append, foldl_append, reverse_replicate, dots,
    foldl_names (by simpa using proper), reverse_reverse]

theorem Cleaned.mem (cleaned : Cleaned rooted out) (member : part ∈ out) :
    part ≠ [] ∧ '/' ∉ part ∧ (part ≠ dotDot → IsName part) := by
  obtain ⟨names, climbed, rfl, proper, -⟩ := cleaned
  obtain among | among := mem_append.mp member
  · have name := proper part among
    exact ⟨name.nonempty, name.slashless, fun _ => name⟩
  · obtain rfl := eq_of_mem_replicate among
    exact ⟨by decide, by decide, fun other => absurd rfl other⟩

theorem relParts_names (stays : climbs rel = false) : ∀ part ∈ relParts rel, IsName part := by
  intro part member
  refine ((cleaned_cleanParts false rel.toList).mem (by simpa [relParts] using member)).2.2 ?_
  rintro rfl
  simp [climbs, contains_eq_mem, member] at stays

end

theorem splitOn_append_slash (front back : Text) :
    (front ++ '/' :: back).splitOn '/' = front.splitOn '/' ++ back.splitOn '/' :=
  splitOnP_append_cons (p := (· == '/')) front back (by rfl)

theorem place_of_rooted (rooted : path.head? = some '/') :
    place path = [] :: (cleanParts true path).reverse := if_pos rooted

theorem place_of_relative (relative : path.head? ≠ some '/') :
    place path = (cleanParts false path).reverse := if_neg relative

theorem cleanPath_of_rooted (root : path.head? = some '/') :
    cleanPath path = '/' :: ['/'].intercalate (cleanParts true path).reverse := by
  simp [cleanPath, root, cleanParts]

theorem cleanPath_of_empty (relative : path.head? ≠ some '/') (empty : cleanParts false path = []) :
    cleanPath path = ['.'] := by
  have none : (path.splitOn '/').foldl (cleanPart false) [] = [] := empty
  simp [cleanPath, relative, none]

theorem cleanPath_of_relative (relative : path.head? ≠ some '/')
    (kept : cleanParts false path ≠ []) :
    cleanPath path = ['/'].intercalate (cleanParts false path).reverse := by
  have some : (path.splitOn '/').foldl (cleanPart false) [] ≠ [] := kept
  simp [cleanPath, relative, some, cleanParts]

theorem cleanParts_intercalate (cleaned : Cleaned rooted out) (nonempty : out ≠ []) :
    cleanParts rooted (['/'].intercalate out.reverse) = out := by
  rw [cleanParts, splitOn_intercalate '/' ?_ (by simpa using nonempty), cleaned.foldl]
  intro part member
  exact (cleaned.mem (by simpa using member)).2.1

theorem head_intercalate (proper : ∀ part ∈ parts, part ≠ [] ∧ '/' ∉ part) :
    (['/'].intercalate parts).head? ≠ some '/' := by
  cases parts with
  | nil => simp [intercalate]
  | cons part parts =>
    obtain ⟨nonempty, slashless⟩ := proper part (by simp)
    cases part with
    | nil => exact absurd rfl nonempty
    | cons c part =>
      have other : c ≠ '/' := fun slash => slashless (by simp [slash])
      cases parts <;> simp [intercalate, intersperse, other]

theorem place_cleanPath (path : Text) : place (cleanPath path) = place path := by
  by_cases root : path.head? = some '/'
  · have cleaned := cleaned_cleanParts true path
    rw [cleanPath_of_rooted root, place_of_rooted rfl, place_of_rooted root]
    congr 2
    by_cases empty : cleanParts true path = []
    · rw [empty]
      rfl
    have split := splitOn_append_slash [] (['/'].intercalate (cleanParts true path).reverse)
    have again := cleanParts_intercalate cleaned empty
    rw [cleanParts] at again
    rw [cleanParts, ← nil_append ('/' :: _), split, foldl_append]
    exact again
  · have cleaned := cleaned_cleanParts false path
    rw [place_of_relative root]
    by_cases empty : cleanParts false path = []
    · rw [cleanPath_of_empty root empty, empty]
      rfl
    have relative : (['/'].intercalate (cleanParts false path).reverse).head? ≠ some '/' :=
      head_intercalate fun part member =>
        have fine := cleaned.mem (by simpa using member)
        ⟨fine.1, fine.2.1⟩
    rw [cleanPath_of_relative root empty, place_of_relative relative,
      cleanParts_intercalate cleaned empty]

theorem place_ofList_cleanPath (path : Text) :
    place (ofList (cleanPath path)).toList = place path := by
  rw [toList_ofList, place_cleanPath]

theorem head_append_slash (front back : Text) :
    (front ++ '/' :: back).head? = (front ++ ['/']).head? := by
  cases front <;> rfl

theorem cleanParts_append_slash (rooted : Bool) (front back : Text) :
    cleanParts rooted (front ++ '/' :: back) =
      (back.splitOn '/').foldl (cleanPart rooted) (cleanParts rooted front) := by
  rw [cleanParts, splitOn_append_slash, foldl_append, cleanParts]

theorem place_slash (nonempty : front ≠ []) : place (front ++ ['/']) = place front := by
  have same : ∀ rooted, cleanParts rooted (front ++ ['/']) = cleanParts rooted front :=
    fun rooted => by
    rw [cleanParts_append_slash]
    rfl
  have head : (front ++ ['/']).head? = front.head? := by
    cases front with
    | nil => exact absurd rfl nonempty
    | cons c front => rfl
  rw [place, place, head, same, same]

theorem place_base (slash : front = [] ∨ front.getLast? = some '/') (name : IsName base) :
    place (front ++ base) = place front ++ [base] := by
  have single : base.splitOn '/' = [base] := splitOn_eq_singleton name.slashless
  obtain rfl | slash := slash
  · have relative : base.head? ≠ some '/' := fun root => name.slashless (mem_of_mem_head? root)
    rw [nil_append, place_of_relative relative, cleanParts, single, foldl_cons,
      foldl_nil, cleanPart_name name]
    rfl
  · obtain ⟨init, rfl⟩ := getLast?_eq_some_iff.mp slash
    have parts : ∀ rooted, cleanParts rooted (init ++ '/' :: base) =
        base :: cleanParts rooted (init ++ ['/']) := fun rooted => by
      rw [cleanParts_append_slash, cleanParts_append_slash, single, foldl_cons, foldl_nil,
        cleanPart_name name]
      rfl
    rw [append_assoc, singleton_append, place, place, head_append_slash, parts, parts]
    split <;> simp

theorem dirPath_base (split : path.toList = front ++ base)
    (slash : front = [] ∨ front.getLast? = some '/') (slashless : '/' ∉ base) :
    dirPath path = ofList (cleanPath front) := by
  have skipped : (path.toList.reverse.dropWhile (· ≠ '/')).reverse = front := by
    rw [split, reverse_append, dropWhile_append_of_pos]
    · obtain rfl | slash := slash
      · rfl
      · obtain ⟨init, rfl⟩ := getLast?_eq_some_iff.mp slash
        simp
    · intro c member
      have other : c ≠ '/' := fun same => slashless (by simpa [same] using member)
      simpa using other
  rw [dirPath, skipped]

theorem basePath_base (split : path.toList = front ++ base)
    (slash : front = [] ∨ front.getLast? = some '/') (name : IsName base) :
    basePath path = ofList base := by
  have nonempty : path ≠ "" := by
    rintro rfl
    exact name.nonempty (append_eq_nil_iff.mp split.symm).2
  have kept : (path.toList.reverse.dropWhile (· = '/')) = base.reverse ++ front.reverse := by
    rw [split, reverse_append]
    cases last : base.reverse with
    | nil => exact absurd (by simpa using last) name.nonempty
    | cons c rest =>
      have other : c ≠ '/' := by
        rintro rfl
        exact name.slashless (mem_reverse.mp (by rw [last]; exact mem_cons_self))
      simp [other]
  have taken : (base.reverse ++ front.reverse).takeWhile (· ≠ '/') = base.reverse := by
    rw [takeWhile_append_of_pos]
    · obtain rfl | ended := slash
      · simp
      · obtain ⟨start, rfl⟩ := getLast?_eq_some_iff.mp ended
        simp
    · intro c member
      have other : c ≠ '/' := fun same => name.slashless (by simpa [same] using member)
      simpa using other
  unfold basePath
  rw [if_neg nonempty, kept, taken]
  cases last : base.reverse with
  | nil => exact absurd (by simpa using last) name.nonempty
  | cons c rest =>
    dsimp only
    rw [← last, reverse_reverse]

theorem intercalate_concat (init : List Text) (last : Text) :
    ∃ front, ['/'].intercalate (init ++ [last]) = front ++ last ∧
      (front = [] ∨ front.getLast? = some '/') := by
  induction init with
  | nil => exact ⟨[], by simp [intercalate], .inl rfl⟩
  | cons part init ih =>
    obtain ⟨front, split, slash⟩ := ih
    refine ⟨part ++ '/' :: front, ?_, .inr ?_⟩
    · cases init with
      | nil | cons next init => simpa [intercalate, intersperse] using split
    · obtain rfl | slash := slash
      · simp
      · simp [getLast?_append, getLast?_cons, slash]

theorem cleanPath_base (leads : place path = init ++ [last]) (name : IsName last) :
    ∃ front, cleanPath path = front ++ last ∧
      (front = [] ∨ front.getLast? = some '/') ∧ place front = init := by
  have split : ∃ front, cleanPath path = front ++ last ∧
      (front = [] ∨ front.getLast? = some '/') := by
    by_cases root : path.head? = some '/'
    · rw [place_of_rooted root] at leads
      cases init with
      | nil =>
        obtain ⟨empty, -⟩ := cons.inj leads
        exact absurd empty.symm name.nonempty
      | cons first init =>
        have parts : (cleanParts true path).reverse = init ++ [last] := (cons.inj leads).2
        obtain ⟨front, split, slash⟩ := intercalate_concat init last
        refine ⟨'/' :: front, ?_, .inr ?_⟩
        · rw [cleanPath_of_rooted root, parts, split, cons_append]
        · obtain rfl | slash := slash
          · rfl
          · simp [getLast?_cons, slash]
    · rw [place_of_relative root] at leads
      obtain ⟨front, split, slash⟩ := intercalate_concat init last
      have kept : cleanParts false path ≠ [] := by
        intro empty
        simp [empty] at leads
      exact ⟨front, by rw [cleanPath_of_relative root kept, leads, split], slash⟩
  obtain ⟨front, split, slash⟩ := split
  refine ⟨front, split, slash, ?_⟩
  have whole := place_base slash name
  rw [← split, place_cleanPath, leads] at whole
  exact (append_cancel_right whole).symm

theorem relParts_of_names (proper : ∀ part ∈ names, IsName part) (nonempty : names ≠ []) :
    relParts (ofList (['/'].intercalate names)) = names := by
  have cleaned : Cleaned false names.reverse :=
    ⟨names.reverse, 0, by simp, by simpa using proper, by simp⟩
  have parts := cleanParts_intercalate cleaned (by simpa using nonempty)
  rw [reverse_reverse] at parts
  rw [relParts, toList_ofList, parts, reverse_reverse]

/-- A relative path that `filepath.Clean` leaves as it is. -/
def IsClean (rel : String) : Prop := rel.toList.head? ≠ some '/' ∧ cleanPath rel.toList = rel.toList

theorem IsClean.eq_of_relParts (clean : IsClean rel) (clean' : IsClean rel')
    (same : relParts rel = relParts rel') : rel = rel' := by
  have parts : cleanParts false rel.toList = cleanParts false rel'.toList :=
    reverse_injective same
  apply ext
  rw [← clean.2, ← clean'.2]
  by_cases empty : cleanParts false rel.toList = []
  · rw [cleanPath_of_empty clean.1 empty, cleanPath_of_empty clean'.1 (parts ▸ empty)]
  · rw [cleanPath_of_relative clean.1 empty, cleanPath_of_relative clean'.1 (parts ▸ empty), parts]

section
variable {parts : List Text} {rooted : Bool}

theorem dotDot_mem_foldl (climbed : dotDot ∈ below) :
    dotDot ∈ parts.foldl (cleanPart false) below := by
  induction parts generalizing below with
  | nil => exact climbed
  | cons part parts ih =>
    refine ih ?_
    unfold cleanPart
    split
    · exact climbed
    split
    · rename_i up
      cases below with
      | nil => simp at climbed
      | cons last below =>
        simp only
        split
        · exact mem_cons_of_mem _ climbed
        · rename_i other
          obtain here | later := mem_cons.mp climbed
          · exact absurd (here.symm.trans up.symm) other
          · exact later
    · exact mem_cons_of_mem _ climbed

theorem foldl_below (stays : dotDot ∉ parts.foldl (cleanPart false) below) :
    parts.foldl (cleanPart rooted) (below ++ out) = parts.foldl (cleanPart false) below ++ out := by
  induction parts generalizing below with
  | nil => rfl
  | cons part parts ih =>
    rw [foldl_cons] at stays ⊢
    have step : cleanPart rooted (below ++ out) part = cleanPart false below part ++ out := by
      have kept : dotDot ∉ cleanPart false below part := fun climbed =>
        stays (dotDot_mem_foldl climbed)
      unfold cleanPart at kept ⊢
      split
      · rfl
      rename_i part_
      simp only [part_, if_false] at kept
      split
      · rename_i up
        simp only [up, if_true] at kept ⊢
        cases below with
        | nil => simp [dotDot] at kept
        | cons last below =>
          simp only [cons_append]
          split <;> rfl
      · rfl
    rw [step, ih stays, foldl_cons]

def Stays (dir rel : String) : Prop :=
  climbs rel = false ∧ (dir = "" → rel.toList.head? ≠ some '/')

theorem place_joinPath (stays : Stays dir rel) :
    place (joinPath [dir, rel]).toList = place dir.toList ++ relParts rel := by
  obtain ⟨low, relative⟩ := stays
  have flat : dotDot ∉ (rel.toList.splitOn '/').foldl (cleanPart false) [] := by
    simpa [climbs, relParts, cleanParts] using low
  by_cases noDir : dir = ""
  · subst noDir
    by_cases noRel : rel = ""
    · subst noRel
      rfl
    · have join : joinPath ["", rel] = ofList (cleanPath rel.toList) := by
        simp [joinPath, noRel, intercalate]
      rw [join, place_ofList_cleanPath, place_of_relative (relative rfl), relParts]
      rfl
  · by_cases noRel : rel = ""
    · subst noRel
      have join : joinPath [dir, ""] = ofList (cleanPath dir.toList) := by
        simp [joinPath, noDir, intercalate]
      rw [join, place_ofList_cleanPath]
      exact (append_nil _).symm
    · have join : joinPath [dir, rel] = ofList (cleanPath (dir.toList ++ '/' :: rel.toList)) := by
        simp [joinPath, noDir, noRel, intercalate, intersperse]
      have parts : ∀ rooted, cleanParts rooted (dir.toList ++ '/' :: rel.toList) =
          cleanParts false rel.toList ++ cleanParts rooted dir.toList := fun rooted => by
        rw [cleanParts_append_slash]
        exact foldl_below flat
      have head : (dir.toList ++ '/' :: rel.toList).head? = dir.toList.head? := by
        cases chars : dir.toList with
        | nil => exact absurd (ext chars) noDir
        | cons c rest => rfl
      rw [join, place_ofList_cleanPath, place, place, head, parts, parts, relParts]
      split <;> simp

end

theorem cleanPath_ne_nil (path : Text) : cleanPath path ≠ [] := by
  by_cases root : path.head? = some '/'
  · simp [cleanPath_of_rooted root]
  by_cases kept : cleanParts false path = []
  · simp [cleanPath_of_empty root kept]
  intro nothing
  rw [cleanPath_of_relative root kept] at nothing
  have again := cleanParts_intercalate (cleaned_cleanParts false path) kept
  rw [nothing] at again
  exact kept again.symm

theorem dirPath_ne_empty (path : String) : dirPath path ≠ "" := by
  intro empty
  have chars := congrArg toList empty
  rw [dirPath, toList_ofList] at chars
  exact cleanPath_ne_nil _ chars

theorem place_dirPath
    (leads : place path = init ++ [last]) (name : IsName last) :
    place (dirPath (ofList (cleanPath path))).toList = init := by
  obtain ⟨front, split, slash, parent⟩ := cleanPath_base leads name
  rw [dirPath_base (by rw [toList_ofList, split]) slash name.slashless, place_ofList_cleanPath,
    parent]

theorem slashless_toString (number : Nat) : '/' ∉ (toString number).toList := by
  intro slash
  rw [show toString number = Nat.repr number from rfl, Nat.toList_repr] at slash
  exact absurd (Nat.isDigit_of_mem_toDigits (by decide) (by decide) slash) (by decide)

theorem isName_numbered (long : 3 ≤ front.toList.length) (slashless : '/' ∉ front.toList)
    (slashless' : '/' ∉ back.toList) (number : Nat) :
    IsName (front ++ toString number ++ back).toList := by
  have whole : (front ++ toString number ++ back).toList =
      front.toList ++ ((toString number).toList ++ back.toList) := by
    simp [toList_append]
  have size : 3 ≤ (front ++ toString number ++ back).toList.length := by
    rw [whole, length_append]
    omega
  have short : ∀ text : Text, text.length ≤ 2 →
      (front ++ toString number ++ back).toList ≠ text := by
    rintro text few rfl
    omega
  refine ⟨short [] (by decide), short ['.'] (by decide), short dotDot (by decide), ?_⟩
  · simp only [whole, mem_append, not_or]
    exact ⟨slashless, slashless_toString number, slashless'⟩

theorem place_entryPath (nonempty : dir ≠ "") (isName : IsName name.toList) :
    place (entryPath dir name).toList = place dir.toList ++ [name.toList] := by
  unfold entryPath
  split
  · rename_i slash
    rw [toList_append, place_base (.inr slash) isName]
  have chars : dir.toList ≠ [] := fun empty => nonempty (ext empty)
  have slash : (dir ++ "/").toList.getLast? = some '/' := by simp
  rw [toList_append, place_base (.inr slash) isName, toList_append]
  congr 1
  exact place_slash chars

end Zester

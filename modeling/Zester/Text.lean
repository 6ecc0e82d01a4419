import Mathlib.Data.List.Basic

/-! The functions of Go's `strings` and `unicode` packages that the sources use. A text is taken
as the list of its characters where they are looked at one by one. -/
namespace Zester
open List

abbrev Text := List Char

/-- `unicode.IsSpace`. -/
def isSpace (c : Char) : Bool :=
  c.toNat ∈ [0x09, 0x0a, 0x0b, 0x0c, 0x0d, 0x20, 0x85, 0xa0, 0x1680, 0x2028, 0x2029, 0x202f,
    0x205f, 0x3000] || (0x2000 ≤ c.toNat && c.toNat ≤ 0x200a)

/-- `unicode.IsControl`. -/
def isControl (c : Char) : Bool := c.toNat < 0x20 || (0x7f ≤ c.toNat && c.toNat < 0xa0)

/-- `strings.TrimSpace`. -/
def trimSpace (s : Text) : Text := ((s.dropWhile isSpace).reverse.dropWhile isSpace).reverse

/-- `strings.Fields`. -/
def fields (s : Text) : List Text := (s.splitOnP isSpace).filter (· ≠ [])

/-- `strings.TrimPrefix`. -/
def trimPrefix (s mark : String) : String :=
  if mark.toList.isPrefixOf s.toList then String.ofList (s.toList.drop mark.length) else s

/-- `strings.HasPrefix`. -/
def hasPrefix (s mark : String) : Bool := mark.toList.isPrefixOf s.toList

/-- `strings.Contains`. -/
def contains (s : Text) (part : String) : Bool := s.tails.any part.toList.isPrefixOf

/-- `strings.ToLower`, for the letters that matter where it is used. -/
def toLower (s : String) : Text := s.toList.map Char.toLower

/-- `filepath.Clean` at one more part of a path, on the parts before it, the last one first. -/
def cleanPart (rooted : Bool) (out : List Text) (part : Text) : List Text :=
  if part = [] ∨ part = ['.'] then out
  else if part = ['.', '.'] then
    match out with
    | [] => if rooted then [] else [part]
    | last :: earlier => if last = part then part :: out else earlier
  else part :: out

/-- `filepath.Clean`. -/
def cleanPath (path : Text) : Text :=
  let rooted := path.head? = some '/'
  let parts := ((path.splitOn '/').foldl (cleanPart rooted) []).reverse
  if rooted then '/' :: ['/'].intercalate parts
  else if parts = [] then ['.']
  else ['/'].intercalate parts

/-- `filepath.Dir`. -/
def dirPath (path : String) : String :=
  String.ofList (cleanPath (path.toList.reverse.dropWhile (· ≠ '/')).reverse)

/-- `filepath.Join`. -/
def joinPath (parts : List String) : String :=
  match parts.filter (· ≠ "") with
  | [] => ""
  | parts => String.ofList (cleanPath (['/'].intercalate (parts.map String.toList)))

theorem not_mem_of_mem_splitOn {text part : Text} (member : part ∈ text.splitOn c) :
    c ∉ part := by
  induction text generalizing part with
  | nil =>
    obtain rfl : part = [] := by simpa using member
    exact not_mem_nil
  | cons d text ih =>
    rw [splitOn_cons_eq_if_modifyHead] at member
    split at member
    · obtain rfl | later := mem_cons.mp member
      · exact not_mem_nil
      · exact ih later
    · rename_i other
      cases parts : text.splitOn c with
      | nil => exact absurd parts (splitOn_ne_nil c text)
      | cons first rest =>
        rw [parts] at member ih
        obtain rfl | later := mem_cons.mp member
        · rw [mem_cons, not_or]
          exact ⟨fun same => other (beq_iff_eq.mpr same.symm), ih mem_cons_self⟩
        · exact ih (mem_cons_of_mem _ later)

theorem dropWhile_of_head {s : Text} (head : ∀ c ∈ s.head?, p c = false) :
    s.dropWhile p = s := by
  cases s with
  | nil => rfl
  | cons c s => simp [head c rfl]

theorem head_dropWhile (p : Char → Bool) (s : Text) : ∀ c ∈ (s.dropWhile p).head?, p c = false := by
  intro c here
  induction s with
  | nil => cases here
  | cons d s ih =>
    cases drops : p d with
    | true => exact ih (by simpa [dropWhile_cons, drops] using here)
    | false =>
      obtain rfl : d = c := by simpa [dropWhile_cons, drops] using here
      exact drops

@[simp] theorem trimSpace_trimSpace (s : Text) : trimSpace (trimSpace s) = trimSpace s := by
  have first : ∀ c ∈ (trimSpace s).head?, isSpace c = false := by
    intro c here
    refine head_dropWhile isSpace s c ?_
    -- what is left when the end is trimmed begins as before
    have start : trimSpace s <+: s.dropWhile isSpace := by
      simpa [trimSpace] using
        reverse_prefix.mpr (dropWhile_suffix (l := (s.dropWhile isSpace).reverse) isSpace)
    obtain ⟨rest, whole⟩ := start
    rw [← whole, head?_append, Option.mem_def.mp here]
    rfl
  have last : (trimSpace s).reverse.dropWhile isSpace = (trimSpace s).reverse := by
    refine dropWhile_of_head ?_
    simpa [trimSpace] using head_dropWhile isSpace (s.dropWhile isSpace).reverse
  nth_rewrite 1 [trimSpace]
  rw [dropWhile_of_head first, last, reverse_reverse]

end Zester

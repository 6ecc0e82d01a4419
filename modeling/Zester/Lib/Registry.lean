import Mathlib.Data.List.Nodup
import Mathlib.Data.List.Perm.Basic

/-! A table that files by a key what is live. Filing takes the place of what was there, and whoever
has ended removes what is filed under its key, whoever filed it. -/

/-- What is live is filed, and no two are filed under one key, even if one has ended and has still
to remove itself. -/
structure Registered {κ ν : Type*} (live ended : List (κ × ν)) (table : κ → Option ν) : Prop where
  filed : ∀ entry ∈ live, table entry.1 = some entry.2
  apart : ((live ++ ended).map (·.1)).Nodup

namespace Registered
open List Function
variable {table : κ → Option ν}

/-- Some may end. -/
theorem perm (registered : Registered live ended table) (fewer : live' ⊆ live)
    (moved : (live' ++ ended').Perm (live ++ ended)) : Registered live' ended' table where
  filed entry member := registered.filed entry (fewer member)
  apart := (moved.map _).nodup_iff.mpr registered.apart

theorem file [DecidableEq κ] (registered : Registered live ended table)
    (free : ∀ entry ∈ live ++ ended, entry.1 ≠ key) :
    Registered ((key, value) :: live) ended (update table key (some value)) where
  filed := by
    refine forall_mem_cons.mpr ⟨update_self .., fun entry member => ?_⟩
    rw [update_of_ne (free entry (mem_append_left _ member))]
    exact registered.filed entry member
  apart := by
    refine nodup_cons.mpr ⟨fun member => ?_, registered.apart⟩
    obtain ⟨entry, member, same⟩ := mem_map.mp member
    exact free entry member same

theorem remove [DecidableEq κ] (registered : Registered live (entry :: ended) table) :
    Registered live ended (update table entry.1 none) := by
  have apart : (entry :: (live ++ ended)).map (·.1) |>.Nodup :=
    (perm_middle.map _).nodup_iff.mp registered.apart
  obtain ⟨other, apart⟩ := nodup_cons.mp apart
  refine ⟨fun live member => ?_, apart⟩
  rw [update_of_ne fun same => other (mem_map.mpr ⟨live, mem_append_left _ member, same⟩)]
  exact registered.filed live member

end Registered

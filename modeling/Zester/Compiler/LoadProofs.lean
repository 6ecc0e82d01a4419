import Zester.Compiler.Load
import Zester.Lib.Search

/-! Which files a compilation lists, and when it fails on a cycle. The load is a search over
references, while the graph of files is over the paths that they resolve to. -/
namespace Zester.Compiler
open Relation Search CompilerConfig AList
open List hiding all

variable {c : CompilerConfig} {it : Ranging} {refs : List StateRef}

/-- The references that the load follows from a reference. -/
def CompilerConfig.follows (c : CompilerConfig) (ref : StateRef) : Except String (List StateRef) :=
  (c.loadAndParse ref).map fun parsed => parsed.includes

def CompilerConfig.pathOf (c : CompilerConfig) (ref : StateRef) : String :=
  ref.resolveToPath c.statesDir

structure Tracks (c : CompilerConfig) (acc : Loading) (seen : List StateRef) : Prop where
  loaded : ∀ ref, ref ∈ acc.loaded ↔ ref ∈ seen
  sources : acc.sources = seen.map c.pathOf

def failureError : Failure StateRef String → CompileError
  | .cycle chain => .cycle chain
  | .node text => .failed text
  | .exhausted => .exhausted

/-- The load ends as the search does. -/
def Mirrors (c : CompilerConfig) (load : Except CompileError Loading) :
    Except (Failure StateRef String) (List StateRef) → Prop
  | .ok seen => ∃ acc, load = .ok acc ∧ Tracks c acc seen
  | .error failure => load = .error (failureError failure)

theorem foldlM_mirrors (step : ∀ acc seen ref, Tracks c acc seen →
      Mirrors c (f acc ref) (g seen ref))
    (items : List StateRef) (tracks : Tracks c acc seen) :
    Mirrors c (items.foldlM f acc) (items.foldlM g seen) := by
  induction items generalizing acc seen with
  | nil => exact ⟨acc, rfl, tracks⟩
  | cons ref items ih =>
    have first := step acc seen ref tracks
    rw [foldlM_cons, foldlM_cons]
    cases visited : g seen ref with
    | error failure =>
      rw [visited] at first
      rw [show f acc ref = _ from first]
      rfl
    | ok all =>
      rw [visited] at first
      obtain ⟨mid, loaded, now⟩ := first
      rw [loaded]
      exact ih now

theorem loadRecursive_mirrors (fuel : Nat) (stack : List StateRef) (acc : Loading)
    (seen : List StateRef) (ref : StateRef) (tracks : Tracks c acc seen) :
    Mirrors c (c.loadRecursive fuel stack acc ref) (visit c.follows fuel stack seen ref) := by
  induction fuel generalizing stack acc seen ref with
  | zero => rfl
  | succ fuel ih =>
    rw [loadRecursive, visit]
    by_cases onStack : ref ∈ stack
    · rw [if_pos onStack, if_pos onStack]
      rfl
    rw [if_neg onStack, if_neg onStack]
    by_cases known : ref ∈ seen
    · rw [if_pos ((tracks.loaded ref).mpr known), if_pos known]
      exact ⟨acc, rfl, tracks⟩
    rw [if_neg (mt (tracks.loaded ref).mp known), if_neg known, follows]
    cases c.loadAndParse ref with
    | error text => rfl
    | ok parsed =>
      refine foldlM_mirrors (fun acc seen ref tracks => ih _ acc seen ref tracks) parsed.includes
        ⟨fun other => ?_, ?_⟩
      · rw [mem_insert, tracks.loaded, mem_append, mem_singleton, or_comm]
      · rw [tracks.sources, map_append]
        rfl

theorem loadAll_mirrors (fuel : Nat) (refs : List StateRef) :
    Mirrors c (c.loadAll fuel refs) (search c.follows fuel refs) :=
  foldlM_mirrors (fun acc seen ref tracks => loadRecursive_mirrors fuel [] acc seen ref tracks) refs
    ⟨by simp, rfl⟩

def Includes (c : CompilerConfig) (path other : String) : Prop :=
  ∃ parsed, c.parseFile path = .ok parsed ∧ ∃ ref ∈ parsed.includes, c.pathOf ref = other

/-- A file that the requested references lead to. -/
def ReachableFile (c : CompilerConfig) (refs : List StateRef) (path : String) : Prop :=
  ∃ ref ∈ refs, ReflTransGen (Includes c) (c.pathOf ref) path

def CyclicFrom (c : CompilerConfig) (refs : List StateRef) : Prop :=
  ∃ path, ReachableFile c refs path ∧ TransGen (Includes c) path path

/-- A reference that is requested, or stands in a file that the requested ones lead to. -/
def UsedRef (c : CompilerConfig) (refs : List StateRef) (ref : StateRef) : Prop :=
  ref ∈ refs ∨ ∃ path parsed, ReachableFile c refs path ∧ c.parseFile path = .ok parsed ∧
    ref ∈ parsed.includes

theorem edge_iff :
    Edge c.follows ref other ↔ ∃ parsed, c.parseFile (c.pathOf ref) = .ok parsed ∧
      other ∈ parsed.includes := by
  unfold Edge follows loadAndParse pathOf
  cases c.parseFile (ref.resolveToPath c.statesDir) with
  | error text | ok parsed => simp [Except.map]

theorem includes_of_edge (edge : Edge c.follows ref other) :
    Includes c (c.pathOf ref) (c.pathOf other) := by
  obtain ⟨parsed, found, listed⟩ := edge_iff.mp edge
  exact ⟨parsed, found, other, listed, rfl⟩

theorem edge_of_includes (includes : Includes c (c.pathOf ref) path) :
    ∃ other, Edge c.follows ref other ∧ c.pathOf other = path := by
  obtain ⟨parsed, found, other, listed, rfl⟩ := includes
  exact ⟨other, edge_iff.mpr ⟨parsed, found, listed⟩, rfl⟩

theorem files_of_reaches (way : Reaches c.follows ref other) :
    ReflTransGen (Includes c) (c.pathOf ref) (c.pathOf other) :=
  way.lift c.pathOf fun _ _ edge => includes_of_edge edge

theorem reaches_of_files (way : ReflTransGen (Includes c) (c.pathOf ref) path) :
    ∃ other, Reaches c.follows ref other ∧ c.pathOf other = path := by
  induction way with
  | refl => exact ⟨ref, .refl, rfl⟩
  | tail _ step ih =>
    obtain ⟨mid, reached, rfl⟩ := ih
    obtain ⟨other, edge, same⟩ := edge_of_includes step
    exact ⟨other, reached.tail edge, same⟩

theorem reachable_iff :
    ReachableFile c refs path ↔ ∃ ref ∈ refs, ∃ other, Reaches c.follows ref other ∧
      c.pathOf other = path := by
  refine exists_congr fun ref => and_congr_right fun _ => ⟨reaches_of_files, ?_⟩
  rintro ⟨other, way, rfl⟩
  exact files_of_reaches way

theorem usedRef_iff : UsedRef c refs other ↔ ∃ ref ∈ refs, Reaches c.follows ref other := by
  constructor
  · rintro (requested | ⟨path, parsed, reachable, found, listed⟩)
    · exact ⟨other, requested, .refl⟩
    · obtain ⟨ref, requested, mid, way, rfl⟩ := reachable_iff.mp reachable
      exact ⟨ref, requested, way.tail (edge_iff.mpr ⟨parsed, found, listed⟩)⟩
  · rintro ⟨ref, requested, way⟩
    obtain rfl | ⟨mid, reached, last⟩ := ReflTransGen.cases_tail_iff _ _ _ |>.mp way
    · exact .inl requested
    · obtain ⟨parsed, found, listed⟩ := edge_iff.mp last
      exact .inr ⟨c.pathOf mid, parsed, reachable_iff.mpr ⟨ref, requested, mid, reached, rfl⟩,
        found, listed⟩

/-- A cycle of files is one of references, though it may be entered under another reference. -/
theorem cyclic_iff :
    CyclicFrom c refs ↔ ∃ ref ∈ refs, ∃ mid, Reaches c.follows ref mid ∧
      TransGen (Edge c.follows) mid mid := by
  constructor
  · rintro ⟨path, reachable, loop⟩
    obtain ⟨ref, requested, mid, way, rfl⟩ := reachable_iff.mp reachable
    obtain ⟨second, first, back⟩ := TransGen.head'_iff.mp loop
    obtain ⟨next, edge, rfl⟩ := edge_of_includes first
    obtain ⟨again, returned, same⟩ := reaches_of_files back
    refine ⟨ref, requested, next, way.tail edge, TransGen.tail' returned ?_⟩
    rw [edge_iff, same]
    exact edge_iff.mp edge
  · rintro ⟨ref, requested, mid, way, loop⟩
    exact ⟨c.pathOf mid, reachable_iff.mpr ⟨ref, requested, mid, way, rfl⟩,
      loop.lift c.pathOf fun _ _ edge => includes_of_edge edge⟩

/-- All references that the load can come to. -/
def CompilerConfig.allRefs (c : CompilerConfig) (refs : List StateRef) : List StateRef :=
  refs ++ c.files.keys.flatMap fun path =>
    ((c.parseFile path).toOption.map fun parsed => parsed.includes).getD []

theorem allRefs_bounded (c : CompilerConfig) (refs : List StateRef) :
    ∀ ref ∈ c.allRefs refs, ∀ other, Edge c.follows ref other → other ∈ c.allRefs refs := by
  intro ref _ other edge
  obtain ⟨parsed, found, listed⟩ := edge_iff.mp edge
  refine mem_append_right _ (mem_flatMap.mpr
    ⟨c.pathOf ref, ?_, by simpa [found, Except.toOption] using listed⟩)
  rw [← AList.mem_keys]
  by_contra missing
  simp [parseFile, readFile, AList.lookup_eq_none.mpr missing] at found

/-- Every reachable file is listed once. A file comes after one that includes it, unless it is
requested and only what was requested earlier has led to the files before it. -/
structure ListsOnce (c : CompilerConfig) (refs : List StateRef) (sources : List String) : Prop where
  once : sources.Nodup
  reachable : ∀ path, path ∈ sources ↔ ReachableFile c refs path
  included : ∀ before path after, sources = before ++ path :: after →
    (∃ file ∈ before, Includes c file path) ∨
    ∃ earlier ref later, refs = earlier ++ ref :: later ∧ c.pathOf ref = path ∧
      ∀ file, file ∈ before ↔ ReachableFile c earlier file

/-- The compilation ends, with an error for a cycle exactly when a cycle of files is reachable, and
otherwise with every reachable file in its sources once. -/
def MergesOnce (c : CompilerConfig) (it : Ranging) (refs : List StateRef) : Prop :=
  ∃ enough, ∀ fuel, enough < fuel →
    c.compileMultiple it fuel refs ≠ .error .exhausted ∧
    ((∃ chain, c.compileMultiple it fuel refs = .error (.cycle chain)) ↔ CyclicFrom c refs) ∧
    (¬ CyclicFrom c refs → ∃ loading, c.loadAll fuel refs = .ok loading ∧
      ListsOnce c refs loading.sources ∧
      ∀ result, c.compileMultiple it fuel refs = .ok result → result.sources = loading.sources)

/-- Different references in use lead to different files. -/
def DistinctPaths (c : CompilerConfig) (refs : List StateRef) : Prop :=
  ∀ ref other, UsedRef c refs ref → UsedRef c refs other → c.pathOf ref = c.pathOf other →
    ref = other

/-- Every file that the requested references lead to can be read and parsed. -/
def Complete (c : CompilerConfig) (refs : List StateRef) : Prop :=
  ∀ path, ReachableFile c refs path → ∃ parsed, c.parseFile path = .ok parsed

/-- What the load comes to where every reachable file can be parsed. -/
theorem loadAll_outcome (complete : Complete c refs) (enough : (c.allRefs refs).length < fuel) :
    (CyclicFrom c refs ∧ ∃ chain, c.loadAll fuel refs = .error (.cycle chain)) ∨
    ¬ CyclicFrom c refs ∧ ∃ loading all, c.loadAll fuel refs = .ok loading ∧
      loading.sources = all.map c.pathOf ∧ Listed c.follows refs all := by
  have outcome :=
    search_outcome (allRefs_bounded c refs) enough refs fun ref member => mem_append_left _ member
  have mirrors := @loadAll_mirrors c fuel refs
  cases searched : search c.follows fuel refs with
  | ok all =>
    rw [searched] at outcome mirrors
    obtain ⟨listed, grounded⟩ := outcome
    obtain ⟨loading, loaded, tracks⟩ := mirrors
    refine .inr ⟨fun cyclic => ?_, loading, all, loaded, tracks.sources, listed⟩
    obtain ⟨ref, requested, mid, way, loop⟩ := cyclic_iff.mp cyclic
    exact (grounded mid ((listed.reached mid).mpr ⟨ref, requested, way⟩)).acyclic loop
  | error failure =>
    rw [searched] at outcome mirrors
    cases failure with
    | cycle chain =>
      obtain ⟨ref, requested, mid, way, loop⟩ := outcome
      exact .inl ⟨cyclic_iff.mpr ⟨ref, requested, mid, way, loop⟩, chain, mirrors⟩
    | node text =>
      obtain ⟨ref, requested, mid, way, broken⟩ := outcome
      obtain ⟨parsed, found⟩ :=
        complete (c.pathOf mid) (reachable_iff.mpr ⟨ref, requested, mid, way, rfl⟩)
      have read : c.loadAndParse mid = .ok parsed := found
      rw [follows, read] at broken
      cases broken
    | exhausted => exact outcome.elim

/-- The list of files is that of the references, so a file is listed once if no two references lead
to it. -/
theorem listsOnce_iff (listed : Listed c.follows refs all) :
    ListsOnce c refs (all.map c.pathOf) ↔ DistinctPaths c refs := by
  have used : ∀ ref, ref ∈ all ↔ UsedRef c refs ref :=
    fun ref => (listed.reached ref).trans usedRef_iff.symm
  constructor
  · intro lists ref other first second same
    exact inj_on_of_nodup_map lists.once ((used ref).mpr first) ((used other).mpr second) same
  · intro distinct
    refine ⟨listed.once.map_on fun ref first other second same => ?_, fun path => ?_,
      fun before path after split => ?_⟩
    · exact distinct ref other ((used ref).mp first) ((used other).mp second) same
    · rw [mem_map, reachable_iff]
      constructor
      · rintro ⟨mid, member, rfl⟩
        obtain ⟨ref, requested, way⟩ := (listed.reached mid).mp member
        exact ⟨ref, requested, mid, way, rfl⟩
      · rintro ⟨ref, requested, mid, way, rfl⟩
        exact ⟨mid, (listed.reached mid).mpr ⟨ref, requested, way⟩, rfl⟩
    · obtain ⟨front, back, rfl, rfl, behind⟩ := map_eq_append_iff.mp split
      obtain ⟨ref, rest, rfl, rfl, -⟩ := map_eq_cons_iff.mp behind
      obtain ⟨file, inside, edge⟩ | ⟨earlier, later, rfl, exactly⟩ :=
        listed.preceded front ref rest rfl
      · exact .inl ⟨c.pathOf file, mem_map_of_mem inside, includes_of_edge edge⟩
      refine .inr ⟨earlier, ref, later, rfl, rfl, fun file => ?_⟩
      rw [mem_map, reachable_iff]
      simp only [exactly]
      constructor
      · rintro ⟨mid, ⟨root, requested, way⟩, rfl⟩
        exact ⟨root, requested, mid, way, rfl⟩
      · rintro ⟨root, requested, mid, way, rfl⟩
        exact ⟨mid, ⟨root, requested, way⟩, rfl⟩

theorem compileMultiple_of_error (failed : c.loadAll fuel refs = .error error) :
    c.compileMultiple it fuel refs = .error error := by
  rw [compileMultiple, failed]
  rfl

theorem compileMultiple_of_ok (loaded : c.loadAll fuel refs = .ok loading) :
    (∃ text, c.compileMultiple it fuel refs = .error (.failed text)) ∨
      ∃ states, c.compileMultiple it fuel refs = .ok ⟨states, loading.sources⟩ := by
  rw [compileMultiple, loaded]
  cases built : c.compileLoaded it loading with
  | error text => exact .inl ⟨text, by simp only [bind, Except.bind, built]; rfl⟩
  | ok states => exact .inr ⟨states, by simp only [bind, Except.bind, built]; rfl⟩

theorem MergesOnce.distinct (complete : Complete c refs) (merges : MergesOnce c it refs)
    (acyclic : ¬ CyclicFrom c refs) : DistinctPaths c refs := by
  obtain ⟨enough, holds⟩ := merges
  have more : enough < max enough (c.allRefs refs).length + 1 := by omega
  have deep : (c.allRefs refs).length < max enough (c.allRefs refs).length + 1 := by omega
  obtain ⟨loading, loaded, once, -⟩ := (holds _ more).2.2 acyclic
  obtain ⟨cyclic, -⟩ | ⟨-, again, all, loadedAgain, sources, listed⟩ :=
    loadAll_outcome complete deep
  · exact absurd cyclic acyclic
  · obtain rfl := Except.ok.inj (loaded.symm.trans loadedAgain)
    exact (listsOnce_iff listed).mp (sources ▸ once)

theorem mergesOnce_of_distinct (complete : Complete c refs)
    (condition : CyclicFrom c refs ∨ DistinctPaths c refs) : MergesOnce c it refs := by
  refine ⟨(c.allRefs refs).length, fun fuel enough => ?_⟩
  obtain ⟨cyclic, chain, failed⟩ | ⟨acyclic, loading, all, loaded, sources, listed⟩ :=
    loadAll_outcome complete enough
  · have ended := @compileMultiple_of_error c it refs fuel _ failed
    exact ⟨by simp [ended], ⟨fun _ => cyclic, fun _ => ⟨chain, ended⟩⟩,
      fun none => absurd cyclic none⟩
  have lists : ListsOnce c refs loading.sources :=
    sources ▸ (listsOnce_iff listed).mpr (condition.resolve_left acyclic)
  obtain ⟨text, ended⟩ | ⟨states, ended⟩ := @compileMultiple_of_ok c it refs fuel _ loaded
  · refine ⟨by simp [ended], ⟨?_, fun cyclic => absurd cyclic acyclic⟩,
      fun _ => ⟨loading, loaded, lists, by simp [ended]⟩⟩
    rintro ⟨chain, other⟩
    simp [ended] at other
  · refine ⟨by simp [ended], ⟨?_, fun cyclic => absurd cyclic acyclic⟩,
      fun _ => ⟨loading, loaded, lists, ?_⟩⟩
    · rintro ⟨chain, other⟩
      simp [ended] at other
    · intro result other
      rw [ended] at other
      exact Except.ok.inj other ▸ rfl

/-- The compilation ends, fails with an error for a cycle exactly when a cycle of files is
reachable, and otherwise lists every reachable file once and after a file that includes it, if and
only if a cycle is reachable or different references in use lead to different files. -/
theorem merges_once_iff (c : CompilerConfig) (it : Ranging) (refs : List StateRef)
    (complete : Complete c refs) :
    MergesOnce c it refs ↔ CyclicFrom c refs ∨ DistinctPaths c refs := by
  constructor
  · intro merges
    by_cases cyclic : CyclicFrom c refs
    · exact .inl cyclic
    · exact .inr (merges.distinct complete cyclic)
  · exact mergesOnce_of_distinct complete

def site : CompilerConfig where
  statesDir := "srv"
  files := insert "srv/web/init.zy" (.ok "web") (insert "srv/db/init.zy" (.ok "db") ∅)
  render _ content := .ok content
  unmarshal content := .ok (if content = "web" then [("include", .list [.str "db"])] else [])
  scalarType _ := "float64"
  registry := ⟨fun _ => none, fun _ => none⟩
  floats := ⟨fun _ => none, fun _ => false⟩

theorem site_web : site.parseFile "srv/web/init.zy" = .ok { includes := ["db"] } := by rfl

theorem site_db : site.parseFile "srv/db/init.zy" = .ok {} := by rfl

theorem site_includes (includes : Includes site path other) :
    path = "srv/web/init.zy" ∧ other = "srv/db/init.zy" := by
  obtain ⟨parsed, found, ref, listed, rfl⟩ := includes
  by_cases web : path = "srv/web/init.zy"
  · subst web
    cases site_web.symm.trans found
    obtain rfl := mem_singleton.mp listed
    exact ⟨rfl, by decide⟩
  · by_cases db : path = "srv/db/init.zy"
    · subst db
      cases site_db.symm.trans found
      cases listed
    · have missing : site.files.lookup path = none := by
        rw [site, lookup_insert_ne web, lookup_insert_ne db, lookup_empty]
      simp [parseFile, readFile, missing] at found

theorem site_complete (requested : ∀ ref ∈ refs,
      site.pathOf ref ∈ ["srv/web/init.zy", "srv/db/init.zy"]) : Complete site refs := by
  have parses : ∀ path ∈ ["srv/web/init.zy", "srv/db/init.zy"], ∃ parsed,
      site.parseFile path = .ok parsed := by
    simp [site_web, site_db]
  rintro path ⟨ref, member, way⟩
  refine parses path ?_
  obtain same | ⟨file, -, last⟩ := ReflTransGen.cases_tail_iff _ _ _ |>.mp way
  · exact same ▸ requested ref member
  · simp [(site_includes last).2]

theorem site_acyclic (refs : List StateRef) : ¬ CyclicFrom site refs := by
  rintro ⟨path, -, loop⟩
  obtain ⟨second, first, -⟩ := TransGen.head'_iff.mp loop
  obtain ⟨file, -, last⟩ := TransGen.tail'_iff.mp loop
  exact absurd ((site_includes first).1.symm.trans (site_includes last).2) (by decide)

theorem merges_once_iff_web :
    MergesOnce site .listed ["web"] ↔ CyclicFrom site ["web"] ∨ DistinctPaths site ["web"] :=
  merges_once_iff site .listed ["web"] (site_complete (by decide))

/-- The database is requested by a longer name for the same file, and is listed twice. -/
theorem included_file_listed_twice :
    Complete site ["web", "db.init"] ∧ ¬ CyclicFrom site ["web", "db.init"] ∧
      ¬ MergesOnce site .listed ["web", "db.init"] := by
  have complete : Complete site ["web", "db.init"] := site_complete (by decide)
  have acyclic := site_acyclic ["web", "db.init"]
  refine ⟨complete, acyclic, fun merges => ?_⟩
  have web : ReachableFile site ["web", "db.init"] (site.pathOf "web") := ⟨"web", by simp, .refl⟩
  rw [(by decide : site.pathOf "web" = "srv/web/init.zy")] at web
  have included : UsedRef site ["web", "db.init"] "db" := .inr ⟨_, _, web, site_web, by simp⟩
  have requested : UsedRef site ["web", "db.init"] "db.init" := .inl (by simp)
  exact absurd (merges.distinct complete acyclic "db" "db.init" included requested (by decide))
    (by decide)

end Zester.Compiler

import RakuAtlas.Proofs.Disk.Following
import RakuAtlas.Proofs.Disk.Trails
import RakuAtlas.Proofs.Order

/-!
# RakuAtlas.Proofs.Disk.Ceiling — walks that stop at a limit

What a walk comes to does not depend on the limit, so there is one list of source files under the
roots (`Disk.sources`), each where it is come to first. A walk with a limit returns the first of
them (`Walk.collect_eq_take`). What was found before is passed over before the files are counted,
and so it neither counts nor stops the walk.

* `Walk.exists_visitsFrom_append`: further roots are walked after the first, with what is left.
* `Disk.sources_append_of_subset`: roots that add no file change nothing.
* `Disk.walk_takes_first`: the walk with any limit.
-/

namespace RakuAtlas

namespace Walk

/-- The place of a source file, if that is what the walk comes to. -/
def source? (config : IndexConfig) : Visit → Option Place
  | .file name place => if name.any config.isSource then some place else none
  | _ => none

/-- The places of the source files among the visits, each where it is come to first. -/
def sources (config : IndexConfig) (visits : List Visit) : List Place :=
  (visits.filterMap (source? config)).eraseDups

theorem source?_eq_some_iff {config : IndexConfig} {visit : Visit} {place : Place} :
    source? config visit = some place ↔
      ∃ name, visit = .file name place ∧ name.any config.isSource := by
  constructor
  · intro h
    cases visit with
    | failure => cases h
    | directory other => cases h
    | file name other =>
      simp only [source?, Option.ite_none_right_eq_some, Option.some.injEq] at h
      obtain ⟨hname, rfl⟩ := h
      exact ⟨name, rfl, hname⟩
  · rintro ⟨name, rfl, hname⟩
    exact if_pos hname

theorem mem_sources {config : IndexConfig} {visits : List Visit} {place : Place} :
    place ∈ sources config visits ↔
      ∃ name, .file name place ∈ visits ∧ name.any config.isSource := by
  rw [sources, List.mem_eraseDups, List.mem_filterMap]
  constructor
  · rintro ⟨visit, hvisit, hsource⟩
    obtain ⟨name, rfl, hname⟩ := source?_eq_some_iff.1 hsource
    exact ⟨name, hvisit, hname⟩
  · rintro ⟨name, hvisit, hname⟩
    exact ⟨_, hvisit, source?_eq_some_iff.2 ⟨name, rfl, hname⟩⟩

section
variable {config : IndexConfig} {before : List Place} {place : Place}

/-- A walk that has found what was met before goes on to the files that come next, up to the
limit. -/
theorem collect_eq_take (visits : List Visit)
    (hbefore : before.eraseDups.length ≤ config.maxFiles) :
    collect config false before.eraseDups visits =
      ⟨(before ++ visits.filterMap (source? config)).eraseDups.take config.maxFiles,
        decide (config.maxFiles <
          (before ++ visits.filterMap (source? config)).eraseDups.length), false⟩ := by
  induction visits generalizing before with
  | nil => simp [collect, List.take_of_length_le hbefore, hbefore]
  | cons visit more ih =>
    cases hsource : source? config visit with
    | none =>
      rw [List.filterMap_cons_none hsource, ← ih hbefore]
      cases visit with
      | failure => rfl
      | directory place => rfl
      | file name place =>
        have hname : ¬name.any config.isSource := by
          intro hname
          cases hsource.symm.trans (source?_eq_some_iff.2 ⟨name, rfl, hname⟩)
        simp [collect, hname]
    | some place =>
      obtain ⟨name, rfl, hname⟩ := source?_eq_some_iff.1 hsource
      rw [List.filterMap_cons_some hsource, List.append_cons before]
      by_cases hmet : place ∈ before
      · -- the file is passed over before it is counted
        have hskip := Order.eraseDups_concat_of_mem hmet
        rw [← ih (by rwa [hskip]), hskip]
        simp [collect, hname, hmet]
      · have hnew := Order.eraseDups_concat_of_not_mem hmet
        by_cases hfull : config.maxFiles ≤ before.eraseDups.length
        · have hlength : config.maxFiles = before.eraseDups.length := Nat.le_antisymm hfull hbefore
          rw [List.eraseDups_append, hnew, List.append_assoc, hlength, List.take_left]
          simp [collect, hname, hmet, hlength]
        · rw [← ih (by rw [hnew, List.length_append, List.length_singleton]; omega), hnew]
          simp [collect, hname, hmet, hfull]

end

/-- Further roots are walked after the first, with the directories that are left. -/
theorem exists_visitsFrom_append (disk : Disk) (config : IndexConfig) (fresh : List Place)
    (pending : List Pending) : ∃ fresh', ∀ again, visitsFrom disk config fresh (pending ++ again) =
      visitsFrom disk config fresh pending ++ visitsFrom disk config fresh' again := by
  obtain ⟨trail, hwalks⟩ := exists_walks disk config fresh pending
  induction hwalks with
  | done fresh =>
    refine ⟨fresh, fun again => ?_⟩
    rw [List.nil_append, visitsFrom, List.nil_append]
  | step hmeets hmore ih =>
    obtain ⟨fresh', ih⟩ := ih
    refine ⟨fresh', fun again => ?_⟩
    rw [List.cons_append, hmeets.visits_eq, hmeets.visits_eq, ← List.append_assoc, ih,
      List.append_assoc]

end Walk

namespace Disk

/-- The source files under the roots, each where the walk comes to it first. -/
def sources (disk : Disk) (config : IndexConfig) (roots : List Path) : List Place :=
  Walk.sources config (Walk.visits disk config roots)

section
variable (disk : Disk) (config : IndexConfig) (roots : List Path)

theorem nodup_sources : (disk.sources config roots).Nodup := Order.nodup_eraseDups _

theorem walk_eq_take (n : Nat) : disk.walk { config with maxFiles := n } roots false =
    ⟨(disk.sources config roots).take n, decide (n < (disk.sources config roots).length),
      false⟩ := by
  have hvisits : Walk.visits disk { config with maxFiles := n } roots =
      Walk.visits disk config roots := Walk.visitsFrom_congr (by rfl) _ _
  rw [walk, hvisits]
  exact @Walk.collect_eq_take { config with maxFiles := n } [] _ (Nat.zero_le _)

variable {disk config roots}

/-- A walk finds the first of the source files. -/
theorem files_sublist : (disk.walk config roots false).files.Sublist
    (disk.sources config roots) := by
  have hwalk := walk_eq_take disk config roots config.maxFiles
  rw [hwalk]
  exact List.take_sublist ..

/-- A walk that is not stopped finds all source files. -/
theorem files_of_not_truncated (h : (disk.walk config roots false).truncated = false) :
    (disk.walk config roots false).files = disk.sources config roots := by
  have hwalk := walk_eq_take disk config roots config.maxFiles
  rw [hwalk, decide_eq_false_iff_not, Nat.not_lt] at h
  rw [hwalk, List.take_of_length_le h]

/-- Roots that add no file change nothing. -/
theorem sources_append_of_subset {again : List Path}
    (h : disk.sources config (roots ++ again) ⊆ disk.sources config roots) :
    disk.sources config (roots ++ again) = disk.sources config roots := by
  obtain ⟨fresh, hvisits⟩ := Walk.exists_visitsFrom_append disk config disk.directories
    (roots.map (Walk.Pending.root disk))
  have hsplit : disk.sources config (roots ++ again) = disk.sources config roots ++
      (((Walk.visitsFrom disk config fresh (again.map (Walk.Pending.root disk))).filterMap
        (Walk.source? config)).removeAll
          ((Walk.visits disk config roots).filterMap (Walk.source? config))).eraseDups := by
    rw [sources, Walk.visits, List.map_append, hvisits, Walk.sources, List.filterMap_append,
      List.eraseDups_append]
    rfl
  -- what the further roots add would have to be among the first as well
  have hnil := nodup_sources disk config (roots ++ again)
  rw [hsplit] at h hnil ⊢
  rw [List.append_right_eq_self]
  refine List.eq_nil_iff_forall_not_mem.2 fun place hplace => ?_
  exact (List.nodup_append.1 hnil).2.2 place (h (List.mem_append_right _ hplace)) place hplace rfl

end

/-- A walk with a limit finds the first of the files that a walk without one finds, and it is
stopped if and only if there are more. Each file counts once, however often it is met, and so
roots that add no file change nothing. -/
theorem walk_takes_first (disk : Disk) (config : IndexConfig) (roots : List Path) :
    (∀ n, disk.walk { config with maxFiles := n } roots false =
      ⟨(disk.sources config roots).take n, decide (n < (disk.sources config roots).length),
        false⟩) ∧
    (∀ n, (disk.sources config roots).length ≤ n →
      disk.walk { config with maxFiles := n } roots false =
        ⟨disk.sources config roots, false, false⟩) ∧
    (disk.sources config roots).Nodup ∧
    (∀ place, place ∈ disk.sources config roots ↔
      ∃ name, .file name place ∈ Walk.visits disk config roots ∧ name.any config.isSource) ∧
    ∀ again, disk.sources config (roots ++ again) ⊆ disk.sources config roots →
      ∀ n, disk.walk { config with maxFiles := n } (roots ++ again) false =
        disk.walk { config with maxFiles := n } roots false := by
  refine ⟨walk_eq_take disk config roots, fun n hn => ?_, nodup_sources disk config roots,
    fun place => Walk.mem_sources, fun again hagain n => ?_⟩
  · rw [walk_eq_take, List.take_of_length_le hn, decide_eq_false (Nat.not_lt.2 hn)]
  · rw [walk_eq_take, walk_eq_take, sources_append_of_subset hagain]

/-- A directory with a file and a link to it. -/
def linkedFile : Disk := ⟨[(["w"], .directory), (["w", "a.raku"], .file (some "")),
  (["w", "b.raku"], .link ⟨"/w/a.raku"⟩)]⟩

namespace linkedFile

open Walk (Walks)
open Walk.Pending (root child)

theorem children_w : linkedFile.children ["w"] = ["a.raku", "b.raku"] := by
  rw [children, List.mergeSort_of_pairwise (by decide)]
  decide

/-- The file is met twice in the directory, and once more if it is a root. -/
theorem walks {more : List Walk.Pending} {trail : List (Walk.Pending × Option Walk.Visit)}
    (hmore : Walks linkedFile {} [[]] more trail) :
    Walks linkedFile {} linkedFile.directories (root linkedFile ⟨"/w"⟩ :: more)
      ((root linkedFile ⟨"/w"⟩, some (.directory ["w"])) ::
        (child linkedFile (root linkedFile ⟨"/w"⟩) ["w"] "a.raku",
          some (.file (some "a.raku") ["w", "a.raku"])) ::
        (child linkedFile (root linkedFile ⟨"/w"⟩) ["w"] "b.raku",
          some (.file (some "b.raku") ["w", "a.raku"])) :: trail) := by
  have hw : linkedFile.reach ⟨"/w"⟩ = .ok (["w"], .directory) :=
    reach_of_followWithin 20 (by decide +kernel)
  have ha : linkedFile.reach (Path.child ⟨"/w"⟩ "a.raku") =
      .ok (["w", "a.raku"], .file (some "")) := reach_of_followWithin 20 (by decide +kernel)
  have hb : linkedFile.reach (Path.child ⟨"/w"⟩ "b.raku") =
      .ok (["w", "a.raku"], .file (some "")) := reach_of_followWithin 20 (by decide +kernel)
  refine .enter hw (by decide) (by decide) (by decide) children_w ?_
  exact .step (.file ha) (.step (.file hb) hmore)

theorem sources_w : linkedFile.sources {} [⟨"/w"⟩] = [["w", "a.raku"]] := by
  rw [sources, Walk.visits, List.map_singleton, (walks (.done _)).visits_eq]
  decide +kernel

theorem sources_w_a : linkedFile.sources {} [⟨"/w"⟩, ⟨"/w/a.raku"⟩] = [["w", "a.raku"]] := by
  have ha : linkedFile.reach ⟨"/w/a.raku"⟩ = .ok (["w", "a.raku"], .file (some "")) :=
    reach_of_followWithin 20 (by decide +kernel)
  rw [sources, Walk.visits, List.map_cons, List.map_singleton,
    (walks (.step (.file ha) (.done _))).visits_eq]
  decide +kernel

end linkedFile

/-- A file that is met three times is one file. -/
theorem walk_takes_first_linkedFile : (linkedFile.sources {} [⟨"/w"⟩]).length ≤ 1 ∧
    linkedFile.sources {} [⟨"/w"⟩, ⟨"/w/a.raku"⟩] ⊆ linkedFile.sources {} [⟨"/w"⟩] ∧
    linkedFile.walk { maxFiles := 1 } [⟨"/w"⟩, ⟨"/w/a.raku"⟩] false =
      ⟨[["w", "a.raku"]], false, false⟩ := by
  have hfits : (linkedFile.sources {} [⟨"/w"⟩]).length ≤ 1 := by
    rw [linkedFile.sources_w]
    decide
  have hsame : linkedFile.sources {} [⟨"/w"⟩, ⟨"/w/a.raku"⟩] ⊆
      linkedFile.sources {} [⟨"/w"⟩] := by
    rw [linkedFile.sources_w, linkedFile.sources_w_a]
    exact List.Subset.refl _
  obtain ⟨-, hwhole, -, -, hagain⟩ := walk_takes_first linkedFile {} [⟨"/w"⟩]
  exact ⟨hfits, hsame, (hagain [⟨"/w/a.raku"⟩] hsame 1).trans
    ((hwhole 1 hfits).trans (by rw [linkedFile.sources_w]))⟩

end Disk

end RakuAtlas

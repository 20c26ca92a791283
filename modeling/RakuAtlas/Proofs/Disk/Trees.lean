import Mathlib.Data.List.Nodup
import RakuAtlas.Proofs.Disk.Following

/-!
# RakuAtlas.Proofs.Disk.Trees — disks that are trees

A disk is a list of places with what stands there. It is a tree (`Disk.IsTree`) if nothing is
listed twice, every place is made of names, and what stands somewhere stands in a directory. A
disk with nothing on it is a tree, and writing and removing things leaves it one
(`IsTree.write`, `IsTree.unlink`).

In a tree the names in a directory are those of what stands in it (`mem_children`), once each
and in order, and the list of directories has every directory once (`mem_directories`).
-/

namespace RakuAtlas

namespace Disk

/-! ## What stands where -/

theorem lookup?_nil (disk : Disk) : disk.lookup? [] = some .directory := rfl

theorem lookup?_of_ne_nil (disk : Disk) {place : Place} (h : place ≠ []) :
    disk.lookup? place = (disk.items.find? (·.1 == place)).map Prod.snd := if_neg h

/-- What is put at a place stands there, and what stands elsewhere stays. -/
theorem lookup?_set (disk : Disk) {place : Place} (hplace : place ≠ []) (item : Item)
    (other : Place) :
    (disk.set place item).lookup? other =
      if other = place then some item else disk.lookup? other := by
  by_cases hroot : other = []
  · subst hroot
    rw [if_neg hplace.symm, lookup?_nil, lookup?_nil]
  rw [lookup?_of_ne_nil _ hroot, lookup?_of_ne_nil _ hroot, set, if_neg hplace]
  by_cases hold : disk.items.any (·.1 == place)
  · rw [if_pos hold]
    have hkey : ((fun entry : Place × Item => entry.1 == other) ∘ fun entry =>
        if entry.1 == place then (place, item) else entry) = (·.1 == other) := by
      funext entry
      by_cases hentry : entry.1 = place
      · simp [hentry]
      · simp [hentry]
    simp only [List.find?_map, hkey]
    cases hfind : disk.items.find? (·.1 == other) with
    | none =>
      -- nothing stood there, so it is not the place that is replaced
      have hother : other ≠ place := by
        rintro rfl
        obtain ⟨entry, hentry, hkey⟩ := List.any_eq_true.1 hold
        exact List.find?_eq_none.1 hfind entry hentry hkey
      rw [if_neg hother]
      rfl
    | some entry =>
      have hentry : entry.1 = other := by simpa using List.find?_some hfind
      by_cases hother : other = place
      · simp [hother, hentry]
      · simp [hother, hentry]
  · rw [if_neg hold, List.find?_append]
    by_cases hother : other = place
    · subst hother
      have hfind : disk.items.find? (·.1 == other) = none := by
        rw [List.find?_eq_none]
        intro entry hentry hkey
        exact hold (List.any_eq_true.2 ⟨entry, hentry, hkey⟩)
      simp [hfind]
    · simp [hother, Ne.symm hother]

/-- What is dropped is gone, and what stands elsewhere stays. -/
theorem lookup?_erase (disk : Disk) {place : Place} (hplace : place ≠ []) (other : Place) :
    (disk.erase place).lookup? other = if other = place then none else disk.lookup? other := by
  by_cases hroot : other = []
  · subst hroot
    rw [if_neg hplace.symm, lookup?_nil, lookup?_nil]
  rw [lookup?_of_ne_nil _ hroot, lookup?_of_ne_nil _ hroot, erase, List.find?_filter]
  by_cases hother : other = place
  · subst hother
    rw [if_pos rfl, List.find?_eq_none.2 ?_]
    · rfl
    · simp
  · rw [if_neg hother]
    congr 2
    funext entry
    by_cases hentry : entry.1 = other
    · simp [hentry, hother]
    · simp [hentry]

/-- What stands where a path leads. -/
def Target.item : Target → Item
  | .directory => .directory
  | .file text => .file text

/-! ## Trees -/

/-- Nothing is listed twice, places are made of names, and what stands somewhere stands in a
directory. -/
structure IsTree (disk : Disk) : Prop where
  nodup : (disk.items.map Prod.fst).Nodup
  isProper : ∀ place ∈ disk.items.map Prod.fst, Place.IsProper place ∧ place ≠ []
  parent : ∀ place item, disk.lookup? place = some item →
    disk.lookup? place.dropLast = some .directory

section
variable {disk : Disk} {place : Place} {item : Item}

theorem mem_items_of_lookup? (hplace : place ≠ []) (h : disk.lookup? place = some item) :
    (place, item) ∈ disk.items := by
  rw [lookup?_of_ne_nil _ hplace, Option.map_eq_some_iff] at h
  obtain ⟨entry, hfind, rfl⟩ := h
  have hkey : entry.1 = place := by simpa using List.find?_some hfind
  subst hkey
  exact List.mem_of_find?_eq_some hfind

theorem exists_lookup?_of_mem (h : place ∈ disk.items.map Prod.fst) :
    ∃ item, disk.lookup? place = some item := by
  by_cases hroot : place = []
  · subst hroot
    exact ⟨.directory, rfl⟩
  · obtain ⟨entry, hentry, rfl⟩ := List.mem_map.1 h
    rw [lookup?_of_ne_nil _ hroot]
    cases hfind : disk.items.find? (·.1 == entry.1) with
    | none => exact absurd (beq_self_eq_true entry.1) (List.find?_eq_none.1 hfind entry hentry)
    | some found => exact ⟨found.2, rfl⟩

/-- What is listed once stands where it is listed. -/
theorem lookup?_of_nodup (hnodup : (disk.items.map Prod.fst).Nodup) (hplace : place ≠ [])
    (hmem : (place, item) ∈ disk.items) : disk.lookup? place = some item := by
  obtain ⟨other, hother⟩ := exists_lookup?_of_mem (List.mem_map_of_mem hmem)
  have hentry := mem_items_of_lookup? hplace hother
  have heq := List.inj_on_of_nodup_map hnodup hentry hmem rfl
  rw [hother, (Prod.mk.inj heq).2]

/-- It is enough to look at what is listed. -/
theorem isTree_of_items (hnodup : (disk.items.map Prod.fst).Nodup)
    (hproper : ∀ place ∈ disk.items.map Prod.fst, Place.IsProper place ∧ place ≠ [])
    (hparent : ∀ place ∈ disk.items.map Prod.fst, disk.lookup? place.dropLast = some .directory) :
    disk.IsTree := by
  refine ⟨hnodup, hproper, fun place item hitem => ?_⟩
  by_cases hroot : place = []
  · subst hroot
    rfl
  · exact hparent place (List.mem_map_of_mem (mem_items_of_lookup? hroot hitem))

namespace IsTree

theorem isProper_of_lookup? (h : disk.IsTree) (hitem : disk.lookup? place = some item) :
    place.IsProper := by
  by_cases hroot : place = []
  · subst hroot
    exact Place.isProper_nil
  · exact (h.isProper place (List.mem_map_of_mem (mem_items_of_lookup? hroot hitem))).1

theorem lookup?_of_mem (h : disk.IsTree) (hmem : (place, item) ∈ disk.items) :
    disk.lookup? place = some item :=
  lookup?_of_nodup h.nodup (h.isProper place (List.mem_map_of_mem hmem)).2 hmem

/-- Something may be put in a directory, but not in place of a directory that may hold
something. -/
theorem set (h : disk.IsTree) (hproper : place.IsProper) (hplace : place ≠ [])
    (hparent : disk.lookup? place.dropLast = some .directory)
    (hkeep : item = .directory ∨ disk.lookup? place ≠ some .directory) :
    (disk.set place item).IsTree := by
  have hkeys : (disk.set place item).items.map Prod.fst = disk.items.map Prod.fst ∨
      place ∉ disk.items.map Prod.fst ∧
        (disk.set place item).items.map Prod.fst = disk.items.map Prod.fst ++ [place] := by
    unfold Disk.set
    rw [if_neg hplace]
    by_cases hold : disk.items.any (·.1 == place)
    · rw [if_pos hold, List.map_map]
      refine Or.inl (List.map_congr_left fun entry _ => ?_)
      by_cases hentry : entry.1 = place
      · simp [hentry]
      · simp [hentry]
    · rw [if_neg hold, List.map_append]
      refine Or.inr ⟨fun hmem => hold ?_, rfl⟩
      obtain ⟨entry, hentry, hkey⟩ := List.mem_map.1 hmem
      exact List.any_eq_true.2 ⟨entry, hentry, beq_iff_eq.2 hkey⟩
  refine ⟨?_, ?_, ?_⟩
  · rcases hkeys with hsame | ⟨hnew, hmore⟩
    · rw [hsame]
      exact h.nodup
    · rw [hmore, ← List.concat_eq_append]
      exact h.nodup.concat hnew
  · intro other hother
    rcases hkeys with hsame | ⟨-, hmore⟩
    · rw [hsame] at hother
      exact h.isProper other hother
    · rw [hmore] at hother
      rcases List.mem_append.1 hother with hold | hnew
      · exact h.isProper other hold
      · rw [List.mem_singleton.1 hnew]
        exact ⟨hproper, hplace⟩
  · intro other found hfound
    have hshorter : place.dropLast ≠ place := by
      intro hsame
      have hlength := congrArg List.length hsame
      have hpos := List.length_pos_iff.2 hplace
      rw [List.length_dropLast] at hlength
      omega
    rw [lookup?_set disk hplace] at hfound ⊢
    by_cases hother : other = place
    · rw [hother, if_neg hshorter]
      exact hparent
    · rw [if_neg hother] at hfound
      have hdirectory := h.parent other found hfound
      by_cases hbelow : other.dropLast = place
      · rw [hbelow] at hdirectory
        rcases hkeep with hitem | hnot
        · rw [if_pos hbelow, hitem]
        · exact absurd hdirectory hnot
      · rw [if_neg hbelow]
        exact hdirectory

/-- A file or a link may be dropped. -/
theorem erase (h : disk.IsTree) (hplace : place ≠ [])
    (hleaf : disk.lookup? place ≠ some .directory) : (disk.erase place).IsTree := by
  have hsublist : ((disk.erase place).items.map Prod.fst).Sublist (disk.items.map Prod.fst) :=
    List.filter_sublist.map _
  refine ⟨h.nodup.sublist hsublist,
    fun other hother => h.isProper other (hsublist.subset hother), ?_⟩
  intro other found hfound
  rw [lookup?_erase disk hplace] at hfound ⊢
  by_cases hother : other = place
  · rw [if_pos hother] at hfound
    cases hfound
  · rw [if_neg hother] at hfound
    have hdirectory := h.parent other found hfound
    rw [if_neg]
    · exact hdirectory
    · rintro hbelow
      rw [hbelow] at hdirectory
      exact hleaf hdirectory

/-! ### Directories -/

theorem mem_directories (h : disk.IsTree) :
    place ∈ disk.directories ↔ disk.lookup? place = some .directory := by
  rw [directories, List.mem_cons, List.mem_filterMap]
  constructor
  · rintro (rfl | ⟨⟨other, item⟩, hentry, hitem⟩)
    · rfl
    · cases item with
      | directory =>
        cases hitem
        exact h.lookup?_of_mem hentry
      | file text => cases hitem
      | link target => cases hitem
  · intro hitem
    by_cases hroot : place = []
    · exact Or.inl hroot
    · exact Or.inr ⟨_, mem_items_of_lookup? hroot hitem, rfl⟩

theorem nodup_directories (h : disk.IsTree) : disk.directories.Nodup := by
  rw [directories, List.nodup_cons, List.mem_filterMap]
  constructor
  · rintro ⟨⟨other, item⟩, hentry, hitem⟩
    cases item with
    | directory =>
      cases hitem
      exact (h.isProper [] (List.mem_map_of_mem hentry)).2 rfl
    | file text => cases hitem
    | link target => cases hitem
  · refine (List.pairwise_map.1 h.nodup).filterMap _ ?_
    rintro ⟨other, item⟩ ⟨other', item'⟩ hne _ hitem _ hitem'
    cases item with
    | directory =>
      cases item' with
      | directory =>
        cases hitem
        cases hitem'
        exact hne
      | file text => cases hitem'
      | link target => cases hitem'
    | file text => cases hitem
    | link target => cases hitem

/-- The names in a directory are those of what stands in it. -/
theorem mem_children (h : disk.IsTree) {name : String} :
    name ∈ disk.children place ↔ ∃ item, disk.lookup? (place ++ [name]) = some item := by
  rw [children, List.mem_mergeSort, List.mem_filterMap]
  constructor
  · rintro ⟨⟨other, item⟩, hentry, hname⟩
    simp only [Option.ite_none_right_eq_some] at hname
    obtain ⟨⟨hroot, rfl⟩, hlast⟩ := hname
    rw [List.dropLast_append_getLast? name hlast]
    exact ⟨item, h.lookup?_of_mem hentry⟩
  · rintro ⟨item, hitem⟩
    exact ⟨_, mem_items_of_lookup? (by simp) hitem, by simp⟩

theorem isName_of_mem_children (h : disk.IsTree) {name : String}
    (hname : name ∈ disk.children place) : Path.IsName name := by
  obtain ⟨item, hitem⟩ := h.mem_children.1 hname
  exact h.isProper_of_lookup? hitem name (by simp)

/-- The names in a directory are in order, each once. -/
theorem pairwise_children (h : disk.IsTree) : (disk.children place).Pairwise (· < ·) := by
  have hnodup : (disk.children place).Nodup := by
    rw [children, (List.mergeSort_perm _ _).nodup_iff]
    refine (List.pairwise_map.1 h.nodup).filterMap _ ?_
    rintro ⟨other, item⟩ ⟨other', item'⟩ hne name hname name' hname' rfl
    simp only [Option.ite_none_right_eq_some] at hname hname'
    refine hne ?_
    rw [← List.dropLast_append_getLast? _ hname.2, ← List.dropLast_append_getLast? _ hname'.2,
      hname.1.2, hname'.1.2]
  have hsorted : (disk.children place).Pairwise (· ≤ ·) :=
    (List.pairwise_mergeSort (by simpa using fun _ _ _ => String.le_trans)
      (by simpa using String.le_total) _).imp of_decide_eq_true
  exact (hsorted.and hnodup).imp fun h => Std.lt_of_le_of_ne h.1 h.2

/-- Steps from a directory lead to what stands at the end. -/
theorem lookup?_of_follows (h : disk.IsTree) {parts : List PathPart} {found : Place × Target}
    (hplace : disk.lookup? place = some .directory) (hfollows : disk.Follows place parts found) :
    disk.lookup? found.1 = some found.2.item := by
  induction hfollows with
  | stop place => exact hplace
  | root hrest ih => exact ih rfl
  | here hrest ih => exact ih hplace
  | up hrest ih => exact ih (h.parent _ _ hplace)
  | directory hitem hrest ih => exact ih hitem
  | file hitem => exact hitem
  | link hitem hrest ih => exact ih hplace

/-- A path leads to what stands at the end. -/
theorem lookup?_of_leads (h : disk.IsTree) {path : Path} {found : Place × Target}
    (hleads : disk.Leads path found) : disk.lookup? found.1 = some found.2.item := by
  obtain ⟨-, steps, -, hfollows⟩ := hleads
  exact h.lookup?_of_follows rfl hfollows

end IsTree

end

/-! ## Changes -/

section
variable {disk disk' : Disk} {place place' : Place} {parts : List PathPart}

/-- Directories that are missing are made in directories. -/
theorem IsTree.makeDirectories (h : disk.IsTree) (hplace : disk.lookup? place = some .directory)
    (hparts : Path.AreNames parts)
    (hmade : disk.makeDirectories place parts = some (disk', place')) :
    disk'.IsTree ∧ disk'.lookup? place' = some .directory := by
  fun_induction Disk.makeDirectories disk place parts with
  | case1 disk place =>
    cases hmade
    exact ⟨h, hplace⟩
  | case2 disk place rest ih => exact ih h rfl hparts.tail hmade
  | case3 disk place rest ih => exact ih h hplace hparts.tail hmade
  | case4 disk place rest ih => exact ih h (h.parent _ _ hplace) hparts.tail hmade
  | case5 disk place text rest next hfollow ih =>
    exact ih h (h.lookup?_of_follows hplace (.of_follow hfollow)) hparts.tail hmade
  | case6 disk place text rest next content hfollow => cases hmade
  | case7 disk place text rest e hfollow next hold => cases hmade
  | case8 disk place text rest e hfollow next hold ih =>
    have hnext : next ≠ [] := by simp [next]
    refine ih ?_ ?_ hparts.tail hmade
    · refine h.set ?_ hnext ?_ (Or.inl rfl)
      · exact (h.isProper_of_lookup? hplace).concat hparts.head
      · rw [List.dropLast_concat]
        exact hplace
    · rw [lookup?_set disk hnext, if_pos rfl]

/-- A file is written into a directory, but not in place of one. -/
theorem landing?_spec (h : disk.IsTree) {links : Nat}
    (hplace : disk.lookup? place = some .directory)
    (hparts : Path.AreNames parts)
    (hlanding : disk.landing? links place parts = some place') :
    place'.IsProper ∧ place' ≠ [] ∧ disk.lookup? place'.dropLast = some .directory ∧
      disk.lookup? place' ≠ some .directory := by
  fun_induction landing? disk links place parts with
  | case1 links place => cases hlanding
  | case2 links place rest ih => exact ih rfl hparts.tail hlanding
  | case3 links place rest ih => exact ih hplace hparts.tail hlanding
  | case4 links place rest ih => exact ih (h.parent _ _ hplace) hparts.tail hlanding
  | case5 links place text rest next hitem ih => exact ih hitem hparts.tail hlanding
  | case6 place text rest next target hitem => cases hlanding
  | case7 place text rest next target hitem k ih =>
    exact ih hplace (hparts.tail.append_steps target) hlanding
  | case8 links place text next hdirectory hlink =>
    obtain rfl := Option.some.inj hlanding
    refine ⟨?_, by simp [next], ?_, fun hitem => hdirectory hitem⟩
    · exact (h.isProper_of_lookup? hplace).concat hparts.head
    · rw [List.dropLast_concat]
      exact hplace
  | case9 links place text rest next hdirectory hlink hmore => cases hlanding

theorem IsTree.write (h : disk.IsTree) (path : Path) (item : Item) :
    (disk.write path item).IsTree := by
  have hfront : Path.AreNames path.parts.dropLast :=
    fun text htext => path.areNames_parts text (List.dropLast_subset _ htext)
  unfold Disk.write
  cases item with
  | directory =>
    dsimp only
    split
    · next disk' place' hmade =>
      exact (h.makeDirectories rfl path.areNames_parts hmade).1
    · exact h
  | file text =>
    dsimp only
    split
    · next disk' place' hmade =>
      have htree := (h.makeDirectories rfl hfront hmade).1
      split
      · next place hlanding =>
        obtain ⟨hproper, hplace, hparent, hitem⟩ :=
          landing?_spec htree rfl path.areNames_steps hlanding
        exact htree.set hproper hplace hparent (Or.inr hitem)
      · exact htree
    · exact h
  | link target =>
    dsimp only
    split
    · next text disk' place hlast hmade =>
      obtain ⟨htree, hplace⟩ := h.makeDirectories rfl hfront hmade
      split
      · exact htree
      · next hnew =>
        refine htree.set ?_ (by simp) ?_ (Or.inr ?_)
        · exact (htree.isProper_of_lookup? hplace).concat
            (Path.isName_of_mem_parts (List.mem_of_getLast? hlast))
        · rw [List.dropLast_concat]
          exact hplace
        · intro hitem
          simp [hitem] at hnew
    · exact h

theorem IsTree.unlink (h : disk.IsTree) (path : Path) : (disk.unlink path).IsTree := by
  unfold Disk.unlink
  split
  · next text place hlast hparent =>
    split
    · next content hitem => exact h.erase (by simp) (by simp [hitem])
    · next target hitem => exact h.erase (by simp) (by simp [hitem])
    · exact h
  · exact h

end

end Disk

end RakuAtlas

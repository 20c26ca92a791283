import RakuAtlas.Proofs.Disk.Trails
import RakuAtlas.Proofs.Text.Lines

/-!
# RakuAtlas.Proofs.Disk.Places — the places that a walk finds

A walk opens what it comes to by its path and says at which place that is. Such
a place is made of names, so it has a path of its own (`parts_path`) that no
other place has.

* `Disk.isProper_of_reach`: wherever a path leads, the place is made of names.
* `Walk.nodup_collect`: a walk finds every place once.
* `Disk.pairwise_walk`: no two files that a walk finds have the same path.
* `Disk.walk_parallel`: it finds the same whether files are parsed ahead or not.
-/

namespace RakuAtlas

open Text (splitWhen splitWhen_cons_of splitWhen_intercalate not_of_mem_splitWhen)

/-! ## Names -/

/-- A text that stands for itself between two slashes. -/
def Path.IsName (text : String) : Prop :=
  '/' ∉ text.toList ∧ Path.partOf? text.toList = some (.name text)

namespace Path

instance (text : String) : Decidable (IsName text) :=
  inferInstanceAs (Decidable ('/' ∉ text.toList ∧ partOf? text.toList = some (.name text)))

theorem isName_of_partOf? {piece : List Char} {text : String} (hslash : '/' ∉ piece)
    (h : partOf? piece = some (.name text)) : IsName text := by
  have htext : text.toList = piece := by
    unfold partOf? at h
    split at h
    · cases h
    · split at h
      · cases h
      · rw [← PathPart.name.inj (Option.some.inj h), String.toList_ofList]
  rw [IsName, htext]
  exact ⟨hslash, h⟩

/-- The names in a path are names. -/
theorem isName_of_mem_parts {path : Path} {text : String} (h : .name text ∈ path.parts) :
    IsName text := by
  have hinner : .name text ∈
      (splitWhen (· == '/') path.spelling.toList).filterMap partOf? → IsName text := by
    intro hmem
    rcases List.mem_filterMap.1 hmem with ⟨piece, hpiece, hpart⟩
    refine isName_of_partOf? ?_ hpart
    intro hslash
    cases not_of_mem_splitWhen hpiece '/' hslash
  unfold parts at h
  simp only at h
  split at h
  · rcases List.mem_cons.1 h with hroot | hmem
    · cases hroot
    · exact hinner hmem
  · split at h
    · rcases List.mem_cons.1 h with hhere | hmem
      · cases hhere
      · exact hinner hmem
    · exact hinner h

theorem isName_of_mem_steps {path : Path} {text : String} (h : .name text ∈ path.steps) :
    IsName text := by
  unfold steps at h
  split at h
  · rcases List.mem_append.1 h with hmem | hhere
    · exact isName_of_mem_parts hmem
    · cases List.mem_singleton.1 hhere
  · exact isName_of_mem_parts h

/-- Parts whose names are names. -/
def AreNames (parts : List PathPart) : Prop := ∀ text, .name text ∈ parts → IsName text

theorem AreNames.tail {part : PathPart} {rest : List PathPart} (h : AreNames (part :: rest)) :
    AreNames rest := fun text htext => h text (List.mem_cons_of_mem _ htext)

theorem AreNames.head {text : String} {rest : List PathPart} (h : AreNames (.name text :: rest)) :
    IsName text := h text List.mem_cons_self

theorem areNames_parts (path : Path) : AreNames path.parts := fun _ => isName_of_mem_parts

theorem areNames_steps (path : Path) : AreNames path.steps := fun _ => isName_of_mem_steps

/-- The steps of a link come in front of the rest. -/
theorem AreNames.append_steps {rest : List PathPart} (h : AreNames rest) (path : Path) :
    AreNames (path.steps ++ rest) := by
  intro text htext
  rcases List.mem_append.1 htext with hsteps | hlater
  · exact isName_of_mem_steps hsteps
  · exact h text hlater

end Path

/-! ## Places -/

/-- A place that is made of names. -/
def Place.IsProper (place : Place) : Prop := ∀ text ∈ place, Path.IsName text

namespace Place

instance (place : Place) : Decidable place.IsProper :=
  inferInstanceAs (Decidable (∀ text ∈ place, Path.IsName text))

/-- Names stand for themselves. -/
theorem filterMap_partOf? {place : Place} (h : place.IsProper) :
    (place.map String.toList).filterMap Path.partOf? = place.map .name := by
  induction place with
  | nil => rfl
  | cons text more ih =>
    rw [Place.IsProper, List.forall_mem_cons] at h
    rw [List.map_cons, List.filterMap_cons_some h.1.2, ih h.2, List.map_cons]

/-- The parts of the path of a place are its names. -/
theorem parts_path {place : Place} (h : place.IsProper) :
    place.path.parts = .root :: place.map .name := by
  have hspelling : place.path.spelling.toList =
      '/' :: ['/'].intercalate (place.map String.toList) := by
    rw [path, String.toList_append, String.toList_intercalate]
    rfl
  have hinner : (splitWhen (· == '/') (['/'].intercalate (place.map String.toList))).filterMap
      Path.partOf? = place.map .name := by
    by_cases hempty : place = []
    · rw [hempty]
      rfl
    · rw [splitWhen_intercalate rfl (by simpa using hempty)]
      · exact filterMap_partOf? h
      · intro piece hpiece c hc
        rcases List.mem_map.1 hpiece with ⟨text, htext, rfl⟩
        refine beq_false_of_ne ?_
        rintro rfl
        exact (h text htext).1 hc
  unfold Path.parts
  rw [hspelling, splitWhen_cons_of rfl]
  simp only [List.head?_cons, if_true]
  rw [List.filterMap_cons_none rfl, hinner]

/-- Different places have different paths. -/
theorem eq_of_same {place other : Place} (h : place.IsProper) (hother : other.IsProper)
    (hsame : place.path.same other.path) : place = other := by
  have hparts := eq_of_beq hsame
  rw [parts_path h, parts_path hother] at hparts
  refine (List.map_inj_right ?_).1 (List.cons.inj hparts).2
  intro text text' htext
  exact PathPart.name.inj htext

theorem isProper_nil : Place.IsProper [] := by
  intro text htext
  cases htext

theorem IsProper.dropLast {place : Place} (h : place.IsProper) : Place.IsProper place.dropLast :=
  fun text htext => h text (List.dropLast_subset _ htext)

theorem IsProper.concat {place : Place} (h : place.IsProper) {text : String}
    (htext : Path.IsName text) : Place.IsProper (place ++ [text]) := by
  intro other hother
  rcases List.mem_append.1 hother with hold | hlast
  · exact h other hold
  · rw [List.mem_singleton.1 hlast]
    exact htext

end Place

namespace Disk

/-- Following names and links from a place of names ends at one. -/
theorem isProper_of_follow {disk : Disk} {links : Nat} {place place' : Place}
    {parts : List PathPart} {target : Target} (hplace : place.IsProper)
    (hparts : Path.AreNames parts) (h : disk.follow links place parts = .ok (place', target)) :
    place'.IsProper := by
  fun_induction follow disk links place parts with
  | case1 links place =>
    cases h
    exact hplace
  | case2 links place rest ih => exact ih Place.isProper_nil hparts.tail h
  | case3 links place rest ih => exact ih hplace hparts.tail h
  | case4 links place rest ih => exact ih hplace.dropLast hparts.tail h
  | case5 links place text rest hlimit => cases h
  | case6 links place text rest next hlimit hlookup => cases h
  | case7 links place text rest next hlimit hlookup ih =>
    exact ih (hplace.concat hparts.head) hparts.tail h
  | case8 links place text next hlimit content hlookup =>
    obtain ⟨rfl, -⟩ := Prod.mk.inj (Except.ok.inj h)
    exact hplace.concat hparts.head
  | case9 links place text rest next hlimit content hlookup hmore => cases h
  | case10 place text rest next hlimit target hlookup => cases h
  | case11 place text rest next hlimit target hlookup k ih =>
    exact ih hplace (hparts.tail.append_steps target) h

/-- A path that is opened leads to a place of names. -/
theorem isProper_of_reach {disk : Disk} {path : Path} {place : Place} {target : Target}
    (h : disk.reach path = .ok (place, target)) : place.IsProper := by
  unfold reach resolve at h
  split at h
  · cases h
  · split at h
    · split at h
      · next steps hsteps =>
        have hnames := Path.areNames_steps path
        rw [hsteps] at hnames
        exact isProper_of_follow Place.isProper_nil hnames.tail h
      · cases h
    · cases h

end Disk

/-! ## The walk -/

namespace Walk

/-- Files are found where the paths lead by which they are reached. -/
theorem isProper_of_mem_visitsFrom {disk : Disk} {config : IndexConfig} {fresh : List Place}
    {pending : List Pending} (hpending : ∀ p ∈ pending, p.target = disk.reach p.path)
    {name : Option String} {place : Place}
    (h : .file name place ∈ visitsFrom disk config fresh pending) : place.IsProper := by
  obtain ⟨trail, hwalks⟩ := exists_walks disk config fresh pending
  rw [hwalks.visits_eq] at h
  obtain ⟨⟨p, visit⟩, hp, rfl⟩ := List.mem_filterMap.1 h
  obtain ⟨left, left', below, hmeets, -⟩ := hwalks.exists_meets hp
  cases hmeets with
  | file htarget =>
    exact Disk.isProper_of_reach ((hwalks.target_eq hpending _ hp).symm.trans htarget)

theorem collect_parallel (config : IndexConfig) (parallel cancelled : Bool) (found : List Place)
    (visits : List Visit) :
    collect { config with parallel := parallel } cancelled found visits =
      collect config cancelled found visits := by
  induction visits generalizing found with
  | nil => rfl
  | cons visit more ih =>
    unfold collect
    simp only [ih]
    rfl

/-- Every file that is picked was found before or is one of the visits. -/
theorem mem_collect {config : IndexConfig} {cancelled : Bool} {found : List Place}
    {visits : List Visit} {place : Place}
    (h : place ∈ (collect config cancelled found visits).files) :
    place ∈ found ∨ ∃ name, .file name place ∈ visits := by
  have hlater : ∀ {visit : Visit} {more : List Visit} {found : List Place},
      (place ∈ found ∨ ∃ name, .file name place ∈ more) →
      place ∈ found ∨ ∃ name, .file name place ∈ visit :: more := by
    intro visit more found hmem
    rcases hmem with hfound | ⟨name, hmore⟩
    · exact Or.inl hfound
    · exact Or.inr ⟨name, List.mem_cons_of_mem _ hmore⟩
  fun_induction collect config cancelled found visits with
  | case1 found => exact Or.inl h
  | case2 found visit more hcancelled => exact Or.inl h
  | case3 found more hcancelled name other hskip ih => exact hlater (ih h)
  | case4 found more hcancelled name other hskip hlimit => exact Or.inl h
  | case5 found more hcancelled name other hskip hlimit ih =>
    rcases ih h with hfound | ⟨name, hmore⟩
    · rcases List.mem_append.1 hfound with hold | hnew
      · exact Or.inl hold
      · rw [List.mem_singleton.1 hnew]
        exact Or.inr ⟨name, List.mem_cons_self⟩
    · exact Or.inr ⟨name, List.mem_cons_of_mem _ hmore⟩
  | case6 found visit more hcancelled hvisit ih => exact hlater (ih h)

/-- A walk that is not cancelled says so, and picks no place twice. -/
theorem nodup_collect {config : IndexConfig} {found : List Place} (hfound : found.Nodup)
    (visits : List Visit) :
    (collect config false found visits).files.Nodup ∧
      (collect config false found visits).cancelled = false := by
  fun_induction collect config false found visits with
  | case1 found => exact ⟨hfound, rfl⟩
  | case2 found visit more hcancelled => cases hcancelled
  | case3 found more hcancelled name place hskip ih => exact ih hfound
  | case4 found more hcancelled name place hskip hlimit => exact ⟨hfound, rfl⟩
  | case5 found more hcancelled name place hskip hlimit ih =>
    apply ih
    refine List.nodup_append.2 ⟨hfound, by simp, ?_⟩
    rintro other hother new hnew rfl
    rw [List.mem_singleton.1 hnew] at hother
    exact hskip (by simp [hother])
  | case6 found visit more hcancelled hvisit ih => exact ih hfound

end Walk

namespace Disk

theorem walk_parallel (disk : Disk) (config : IndexConfig) (parallel : Bool) (roots : List Path) :
    disk.walk { config with parallel := parallel } roots false = disk.walk config roots false := by
  have hvisits : Walk.visits disk { config with parallel := parallel } roots =
      Walk.visits disk config roots := Walk.visitsFrom_congr (by rfl) _ _
  rw [walk, hvisits, Walk.collect_parallel, walk]

/-- No two files that a walk finds have the same path. -/
theorem pairwise_walk (disk : Disk) (config : IndexConfig) (roots : List Path) :
    ((disk.walk config roots false).files.map Place.path).Pairwise fun p q => ¬p.same q := by
  have hproper : ∀ place ∈ (disk.walk config roots false).files, place.IsProper := by
    intro place hplace
    rcases Walk.mem_collect hplace with hfound | ⟨name, hvisit⟩
    · cases hfound
    · refine Walk.isProper_of_mem_visitsFrom ?_ hvisit
      intro p hp
      rcases List.mem_map.1 hp with ⟨root, -, rfl⟩
      rfl
  have hnodup : (disk.walk config roots false).files.Nodup :=
    (Walk.nodup_collect List.nodup_nil _).1
  rw [List.pairwise_map]
  refine hnodup.imp_of_mem ?_
  intro place other hplace hother hne hsame
  exact hne (Place.eq_of_same (hproper place hplace) (hproper other hother) hsame)

end Disk

end RakuAtlas

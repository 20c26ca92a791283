import Mathlib.Data.List.Nodup
import RakuAtlas.Disk.Walk

/-!
# RakuAtlas.Proofs.Disk.Trails — the walk step by step

The walk as a relation: `Walk.Meets` is one step, with what the walk makes of something that it
comes to, and `Walk.Walks` is a walk with the trail of all that it comes to. Every walk leaves a
trail, and its visits are those on the trail.

* `Meets.visits_eq`, `Walks.visits_eq`: the visits of a step and of a walk.
* `visitsFrom_congr`: of the configuration only the names that are not entered matter to the walk.
* `Walks.invariant`: what holds of everything on the trail.
* `Walks.exists_entered`: no directory is lost, although links may be cut and directories be met
  again.
* `Walks.nodup_entered`: no directory is entered twice.
-/

namespace RakuAtlas

namespace Walk

/-- The directory that is entered, if that is what the walk does. -/
def Visit.directory? : Visit → Option Place
  | .directory place => some place
  | _ => none

/-! ## The walk step by step -/

/-- What the walk makes of something that it comes to, with the directories that are left then and
what it comes to next. -/
inductive Meets (disk : Disk) (config : IndexConfig) (fresh : List Place) (p : Pending) :
    Option Visit → List Place → List Pending → Prop
  | error {e : AccessError} (htarget : p.target = .error e) :
      Meets disk config fresh p (some .failure) fresh []
  | file {place : Place} {text : Option String} (htarget : p.target = .ok (place, .file text)) :
      Meets disk config fresh p (some (.file p.name place)) fresh []
  | loop {place : Place} (htarget : p.target = .ok (place, .directory)) (hloop : p.isLoop place) :
      Meets disk config fresh p (some .failure) fresh []
  | ignored {place : Place} (htarget : p.target = .ok (place, .directory))
      (hloop : ¬p.isLoop place) (hignored : p.isIgnored config) :
      Meets disk config fresh p none fresh []
  | enter {place : Place} (htarget : p.target = .ok (place, .directory))
      (hloop : ¬p.isLoop place) (hkept : ¬p.isIgnored config) (hfresh : place ∈ fresh) :
      Meets disk config fresh p (some (.directory place)) (fresh.erase place)
        ((disk.children place).map (Pending.child disk p place))
  | again {place : Place} (htarget : p.target = .ok (place, .directory))
      (hloop : ¬p.isLoop place) (hkept : ¬p.isIgnored config) (hold : place ∉ fresh) :
      Meets disk config fresh p none fresh []

/-- The walk, with the trail of what it comes to and what it makes of it. -/
inductive Walks (disk : Disk) (config : IndexConfig) :
    List Place → List Pending → List (Pending × Option Visit) → Prop
  | done (fresh : List Place) : Walks disk config fresh [] []
  | step {fresh fresh' : List Place} {p : Pending} {below more : List Pending}
      {visit : Option Visit} {trail : List (Pending × Option Visit)}
      (hmeets : Meets disk config fresh p visit fresh' below)
      (hmore : Walks disk config fresh' (below ++ more) trail) :
      Walks disk config fresh (p :: more) ((p, visit) :: trail)

section
variable {disk : Disk} {config : IndexConfig} {fresh : List Place} {pending : List Pending}
  {trail : List (Pending × Option Visit)}

/-- Every walk leaves a trail. -/
theorem exists_walks (disk : Disk) (config : IndexConfig) (fresh : List Place)
    (pending : List Pending) : ∃ trail, Walks disk config fresh pending trail := by
  fun_induction visitsFrom disk config fresh pending with
  | case1 fresh => exact ⟨[], .done fresh⟩
  | case2 fresh p more e htarget ih => exact ⟨_, .step (.error htarget) ih.choose_spec⟩
  | case3 fresh p more place text htarget ih => exact ⟨_, .step (.file htarget) ih.choose_spec⟩
  | case4 fresh p more place htarget hloop ih =>
    exact ⟨_, .step (.loop htarget hloop) ih.choose_spec⟩
  | case5 fresh p more place htarget hloop hignored ih =>
    exact ⟨_, .step (.ignored htarget hloop hignored) ih.choose_spec⟩
  | case6 fresh p more place htarget hloop hignored hfresh ih =>
    exact ⟨_, .step (.enter htarget hloop hignored hfresh) ih.choose_spec⟩
  | case7 fresh p more place htarget hloop hignored hfresh ih =>
    exact ⟨_, .step (.again htarget hloop hignored hfresh) ih.choose_spec⟩

namespace Meets

variable {fresh' : List Place} {p : Pending} {visit : Option Visit} {below : List Pending}

theorem visits_eq (h : Meets disk config fresh p visit fresh' below) (more : List Pending) :
    visitsFrom disk config fresh (p :: more) =
      visit.toList ++ visitsFrom disk config fresh' (below ++ more) := by
  rw [visitsFrom]
  cases h with
  | error htarget => simp [htarget]
  | file htarget => simp [htarget]
  | loop htarget hloop => simp [htarget, hloop]
  | ignored htarget hloop hignored => simp [htarget, hloop, hignored]
  | enter htarget hloop hkept hfresh => simp [htarget, hloop, hkept, hfresh]
  | again htarget hloop hkept hold => simp [htarget, hloop, hkept, hold]

/-- A directory that was not entered yet is entered now, or it stays so. -/
theorem mem_or_entered (h : Meets disk config fresh p visit fresh' below) {place : Place}
    (hplace : place ∈ fresh) : visit = some (.directory place) ∨ place ∈ fresh' := by
  cases h with
  | @enter entered htarget hloop hkept hfresh =>
    by_cases hsame : place = entered
    · exact Or.inl (by rw [hsame])
    · exact Or.inr ((List.mem_erase_of_ne hsame).2 hplace)
  | _ => exact Or.inr hplace

theorem fresh_sublist (h : Meets disk config fresh p visit fresh' below) :
    fresh'.Sublist fresh := by
  cases h with
  | enter htarget hloop hkept hfresh => exact List.erase_sublist
  | _ => exact List.Sublist.refl _

/-- What is below a directory has that directory above it, which is entered now, and what is above
the directory. -/
theorem not_mem_of_above (h : Meets disk config fresh p visit fresh' below) (hnodup : fresh.Nodup)
    (habove : ∀ place ∈ p.above, place ∉ fresh) {child : Pending} (hchild : child ∈ below)
    {place : Place} (hplace : place ∈ child.above) : place ∉ fresh' := by
  cases h with
  | @enter entered htarget hloop hkept hfresh =>
    obtain ⟨name, -, rfl⟩ := List.mem_map.1 hchild
    rcases List.mem_cons.1 hplace with rfl | hmore
    · exact hnodup.not_mem_erase
    · exact fun hmem => habove place hmore (List.mem_of_mem_erase hmem)
  | _ => cases hchild

/-- A directory that may be entered and was not is entered. A link to it is not cut, since it is
not above the link. -/
theorem enters (h : Meets disk config fresh p visit fresh' below)
    (habove : ∀ place ∈ p.above, place ∉ fresh) {place : Place}
    (htarget : p.target = .ok (place, .directory)) (hkept : ¬p.isIgnored config)
    (hfresh : place ∈ fresh) : visit = some (.directory place) := by
  cases h with
  | error htarget' => cases htarget.symm.trans htarget'
  | file htarget' => cases htarget.symm.trans htarget'
  | loop htarget' hloop =>
    cases htarget.symm.trans htarget'
    rw [Pending.isLoop, Bool.and_eq_true, List.contains_iff_mem] at hloop
    exact absurd hfresh (habove place hloop.2)
  | ignored htarget' hloop hignored => exact absurd hignored hkept
  | enter htarget' hloop hkept hfresh =>
    cases htarget.symm.trans htarget'
    rfl
  | again htarget' hloop hkept hold =>
    cases htarget.symm.trans htarget'
    exact absurd hfresh hold

/-- Of the configuration only the names that are not entered matter. -/
theorem congr {config' : IndexConfig} (hconfig : config'.ignoredDirs = config.ignoredDirs)
    (h : Meets disk config fresh p visit fresh' below) :
    Meets disk config' fresh p visit fresh' below := by
  have hnames : config'.isIgnored = config.isIgnored :=
    funext fun name => congrArg (List.contains · name) hconfig
  have hsame : p.isIgnored config' = p.isIgnored config := by
    rw [Pending.isIgnored, hnames, Pending.isIgnored]
  cases h with
  | error htarget => exact .error htarget
  | file htarget => exact .file htarget
  | loop htarget hloop => exact .loop htarget hloop
  | ignored htarget hloop hignored => exact .ignored htarget hloop (hsame ▸ hignored)
  | enter htarget hloop hkept hfresh => exact .enter htarget hloop (hsame ▸ hkept) hfresh
  | again htarget hloop hkept hold => exact .again htarget hloop (hsame ▸ hkept) hold

end Meets

namespace Walks

theorem congr {config' : IndexConfig} (hconfig : config'.ignoredDirs = config.ignoredDirs)
    (h : Walks disk config fresh pending trail) : Walks disk config' fresh pending trail := by
  induction h with
  | done fresh => exact .done fresh
  | step hmeets hmore ih => exact .step (hmeets.congr hconfig) ih

/-- The visits of a walk are those on its trail. -/
theorem visits_eq (h : Walks disk config fresh pending trail) :
    visitsFrom disk config fresh pending = trail.filterMap Prod.snd := by
  induction h with
  | done fresh => rw [visitsFrom, List.filterMap_nil]
  | @step fresh fresh' p below more visit trail hmeets hmore ih =>
    rw [hmeets.visits_eq, ih]
    cases visit with
    | none => rfl
    | some visit => rfl

theorem walk_eq {roots : List Path}
    (h : Walks disk config disk.directories (roots.map (Pending.root disk)) trail)
    (cancelled : Bool) : disk.walk config roots cancelled =
      collect config cancelled [] (trail.filterMap Prod.snd) := by
  rw [Disk.walk, visits, h.visits_eq]

/-- The walk comes to the names in a directory when it enters it. -/
theorem enter {p : Pending} {place : Place} {names : List String} {more : List Pending}
    (htarget : p.target = .ok (place, .directory)) (hloop : ¬p.isLoop place)
    (hkept : ¬p.isIgnored config) (hfresh : place ∈ fresh) (hnames : disk.children place = names)
    (hmore : Walks disk config (fresh.erase place)
      (names.map (Pending.child disk p place) ++ more) trail) :
    Walks disk config fresh (p :: more) ((p, some (.directory place)) :: trail) :=
  .step (.enter htarget hloop hkept hfresh) (hnames ▸ hmore)

/-- The walk comes to everything that is pending. -/
theorem exists_of_pending (h : Walks disk config fresh pending trail) {p : Pending}
    (hp : p ∈ pending) : ∃ visit, (p, visit) ∈ trail := by
  induction h with
  | done fresh => cases hp
  | step hmeets hmore ih =>
    rcases List.mem_cons.1 hp with rfl | hlater
    · exact ⟨_, List.mem_cons_self⟩
    · obtain ⟨visit, hvisit⟩ := ih (List.mem_append_right _ hlater)
      exact ⟨visit, List.mem_cons_of_mem _ hvisit⟩

/-- Everything on the trail was met, and the walk comes to what is below it. -/
theorem exists_meets (h : Walks disk config fresh pending trail) {p : Pending}
    {visit : Option Visit} (hp : (p, visit) ∈ trail) :
    ∃ left left' below, Meets disk config left p visit left' below ∧
      ∀ child ∈ below, ∃ visit, (child, visit) ∈ trail := by
  induction h with
  | done fresh => cases hp
  | @step fresh fresh' q below more visit' trail hmeets hmore ih =>
    rcases List.mem_cons.1 hp with heq | hlater
    · obtain ⟨rfl, rfl⟩ := Prod.mk.inj heq
      refine ⟨_, _, _, hmeets, fun child hchild => ?_⟩
      obtain ⟨visit, hvisit⟩ := hmore.exists_of_pending (List.mem_append_left _ hchild)
      exact ⟨visit, List.mem_cons_of_mem _ hvisit⟩
    · obtain ⟨left, left', below, hmet, hbelow⟩ := ih hlater
      refine ⟨left, left', below, hmet, fun child hchild => ?_⟩
      obtain ⟨visit, hvisit⟩ := hbelow child hchild
      exact ⟨visit, List.mem_cons_of_mem _ hvisit⟩

/-- What holds of the roots and of what is below something of which it holds, holds of everything
that the walk comes to. -/
theorem invariant (h : Walks disk config fresh pending trail) {P : Pending → Prop}
    (hpending : ∀ p ∈ pending, P p)
    (hbelow : ∀ {left p visit left' below}, P p → Meets disk config left p visit left' below →
      ∀ child ∈ below, P child) : ∀ met ∈ trail, P met.1 := by
  induction h with
  | done fresh =>
    intro met hmet
    cases hmet
  | step hmeets hmore ih =>
    rw [List.forall_mem_cons] at hpending ⊢
    refine ⟨hpending.1, ih fun p hp => ?_⟩
    rcases List.mem_append.1 hp with hchild | hlater
    · exact hbelow hpending.1 hmeets p hchild
    · exact hpending.2 p hlater

/-- What the walk comes to is opened by its path. -/
theorem target_eq (h : Walks disk config fresh pending trail)
    (hpending : ∀ p ∈ pending, p.target = disk.reach p.path) :
    ∀ met ∈ trail, met.1.target = disk.reach met.1.path := by
  refine h.invariant (P := fun p => p.target = disk.reach p.path) hpending ?_
  intro left p visit left' below _ hmeets child hchild
  cases hmeets with
  | enter htarget hloop hkept hfresh =>
    obtain ⟨name, -, rfl⟩ := List.mem_map.1 hchild
    rfl
  | _ => cases hchild

/-- No directory is lost: one that the walk comes to is entered there or elsewhere. A link is cut
only if the directory is above it. -/
theorem exists_entered (h : Walks disk config fresh pending trail) (hnodup : fresh.Nodup)
    (habove : ∀ p ∈ pending, ∀ place ∈ p.above, place ∉ fresh) {p : Pending}
    {visit : Option Visit} {place : Place} (hp : (p, visit) ∈ trail)
    (htarget : p.target = .ok (place, .directory)) (hkept : ¬p.isIgnored config)
    (hfresh : place ∈ fresh) : ∃ q, (q, some (.directory place)) ∈ trail := by
  induction h with
  | done fresh => cases hp
  | @step fresh fresh' q below more visit' trail hmeets hmore ih =>
    rw [List.forall_mem_cons] at habove
    rcases hmeets.mem_or_entered hfresh with rfl | hfresh'
    · exact ⟨q, List.mem_cons_self⟩
    rcases List.mem_cons.1 hp with heq | hlater
    · obtain ⟨rfl, -⟩ := Prod.mk.inj heq
      have hentered := hmeets.enters habove.1 htarget hkept hfresh
      exact ⟨p, hentered ▸ List.mem_cons_self⟩
    · have hnext : ∀ other ∈ below ++ more, ∀ place ∈ other.above, place ∉ fresh' := by
        intro other hother place hplace
        rcases List.mem_append.1 hother with hchild | hmore
        · exact hmeets.not_mem_of_above hnodup habove.1 hchild hplace
        · exact fun hmem => habove.2 other hmore place hplace (hmeets.fresh_sublist.subset hmem)
      obtain ⟨q, hq⟩ := ih (hnodup.sublist hmeets.fresh_sublist) hnext hlater hfresh'
      exact ⟨q, List.mem_cons_of_mem _ hq⟩

/-- No directory is entered twice. -/
theorem nodup_entered (h : Walks disk config fresh pending trail) (hnodup : fresh.Nodup) :
    ((trail.filterMap Prod.snd).filterMap Visit.directory?).Nodup ∧
      (trail.filterMap Prod.snd).filterMap Visit.directory? ⊆ fresh := by
  induction h with
  | done fresh => exact ⟨List.nodup_nil, List.nil_subset _⟩
  | @step fresh fresh' p below more visit trail hmeets hmore ih =>
    obtain ⟨hrest, hsubset⟩ := ih (hnodup.sublist hmeets.fresh_sublist)
    have hleft := hmeets.fresh_sublist.subset
    cases hmeets with
    | @enter place htarget hloop hkept hfresh =>
      refine ⟨List.nodup_cons.2 ⟨fun hmem => ?_, hrest⟩, ?_⟩
      · exact hnodup.not_mem_erase (hsubset hmem)
      · exact List.cons_subset.2 ⟨hfresh, List.Subset.trans hsubset hleft⟩
    | _ => exact ⟨hrest, hsubset⟩

end Walks

end

/-- Of the configuration only the names that are not entered matter to the walk. -/
theorem visitsFrom_congr {disk : Disk} {config config' : IndexConfig}
    (h : config'.ignoredDirs = config.ignoredDirs) (fresh : List Place) (pending : List Pending) :
    visitsFrom disk config' fresh pending = visitsFrom disk config fresh pending := by
  obtain ⟨trail, hwalks⟩ := exists_walks disk config fresh pending
  rw [hwalks.visits_eq, (hwalks.congr h).visits_eq]

end Walk

end RakuAtlas

import RakuAtlas.Proofs.Disk.Reachable

/-!
# RakuAtlas.Proofs.Disk.Linkless — walks through trees without links

Without links a place is reached from a root by one path only, which is spelled by the names from
the root down (`Path.descend`). So what a walk finds below a root is what stands under no ignored
name and can be opened by that path (`Disk.mem_sources_iff_of_linkless`), and it comes in the order
of the names (`Disk.pairwise_sources`).
-/

namespace RakuAtlas

/-- The path of names below a path. -/
def Path.descend (path : Path) (names : List String) : Path := names.foldl Path.child path

namespace Path

theorem descend_concat (path : Path) (names : List String) (name : String) :
    path.descend (names ++ [name]) = (path.descend names).child name := List.foldl_concat ..

theorem head?_descend {path : Path} (hslash : path.spelling.toList.head? = some '/')
    (names : List String) : (path.descend names).spelling.toList.head? = some '/' := by
  induction names using List.reverseRecOn with
  | nil => exact hslash
  | append_singleton names name ih =>
    rw [descend_concat]
    exact head?_child ih

theorem utf8ByteSize_add_le_descend (path : Path) (names : List String) :
    path.spelling.utf8ByteSize + total String.utf8ByteSize names ≤
      (path.descend names).spelling.utf8ByteSize := by
  induction names using List.reverseRecOn with
  | nil => exact Nat.le_refl _
  | append_singleton names name ih =>
    have hchild := utf8ByteSize_add_le_child (path.descend names) name
    rw [descend_concat]
    simp only [total_append, total_cons, total_nil]
    omega

end Path

namespace Place

theorem head?_path (place : Place) : place.path.spelling.toList.head? = some '/' := by
  rw [path, String.toList_append]
  rfl

/-! ## Places in order -/

/-- Neither place is below the other, and the first one comes first by name. -/
def Apart (place other : Place) : Prop :=
  ∃ front x y back back', place = front ++ x :: back ∧ other = front ++ y :: back' ∧ x < y

theorem Apart.lt {place other : Place} (h : place.Apart other) : place < other := by
  obtain ⟨front, x, y, back, back', rfl, rfl, hlt⟩ := h
  induction front with
  | nil => exact List.Lex.rel hlt
  | cons name front ih => exact List.Lex.cons ih

theorem Apart.append {place other : Place} (h : place.Apart other) (below below' : Place) :
    Place.Apart (place ++ below) (other ++ below') := by
  obtain ⟨front, x, y, back, back', rfl, rfl, hlt⟩ := h
  exact ⟨front, x, y, back ++ below, back' ++ below', by simp, by simp, hlt⟩

theorem apart_of_lt (place : Place) {x y : String} (h : x < y) :
    Place.Apart (place ++ [x]) (place ++ [y]) := ⟨place, x, y, [], [], rfl, rfl, h⟩

theorem lt_append_cons (place : Place) (name : String) (below : Place) :
    place < place ++ name :: below := by
  induction place with
  | nil => exact List.Lex.nil
  | cons first place ih => exact List.Lex.cons ih

end Place

namespace Disk

/-- There are no links. -/
def Linkless (disk : Disk) : Prop := ∀ place target, disk.lookup? place ≠ some (.link target)

theorem linkless_of_items {disk : Disk}
    (h : ∀ entry ∈ disk.items, ∀ target, entry.2 ≠ .link target) : disk.Linkless := by
  intro place target hitem
  by_cases hroot : place = []
  · subst hroot
    cases hitem
  · exact h _ (mem_items_of_lookup? hroot hitem) target rfl

section
variable {disk : Disk} {path : Path} {place : Place} {name : String} {found : Place × Target}

/-- Names lead down from a place. -/
theorem Follows.eq_append (hlinks : disk.Linkless) {names : List String}
    (h : disk.Follows place (names.map .name) found) : found.1 = place ++ names := by
  induction names generalizing place with
  | nil =>
    cases h
    rw [List.append_nil]
  | cons name names ih =>
    rw [List.map_cons] at h
    generalize hnames : names.map PathPart.name = rest at h
    cases h with
    | directory hitem hrest =>
      subst hnames
      rw [ih hrest, List.append_assoc, List.singleton_append]
    | file hitem => rw [List.map_eq_nil_iff.1 hnames]
    | link hitem hrest => exact absurd hitem (hlinks _ _)

theorem Leads.eq_concat (hlinks : disk.Linkless) (hname : Path.IsName name)
    (hdirectory : disk.Leads path (place, .directory)) (h : disk.Leads (path.child name) found) :
    found.1 = place ++ [name] :=
  Follows.eq_append hlinks ((leads_child_iff hdirectory hname).1 h).2

/-- The path of a place leads to that place. -/
theorem Leads.eq_of_path (hlinks : disk.Linkless) (hplace : place.IsProper)
    (h : disk.Leads place.path found) : found.1 = place := by
  obtain ⟨-, steps, hsteps, hfollows⟩ := h
  unfold Path.steps at hsteps
  rw [Place.parts_path hplace] at hsteps
  split at hsteps
  · obtain ⟨-, rfl⟩ := List.cons.inj hsteps
    obtain ⟨middle, hfirst, hlast⟩ := Follows.exists_of_append (List.cons_ne_nil _ _) hfollows
    cases hlast with
    | here hstop =>
      cases hstop
      exact hfirst.eq_append hlinks
  · obtain ⟨-, rfl⟩ := List.cons.inj hsteps
    exact hfollows.eq_append hlinks

end

end Disk

namespace Walk

section
variable {disk : Disk} {config : IndexConfig} {root : Place}
  {trail : List (Pending × Option Visit)}

/-- Something that the walk comes to by the names below a root. -/
structure Sited (disk : Disk) (config : IndexConfig) (root : Place) (below : List String)
    (p : Pending) : Prop where
  path : p.path = root.path.descend below
  entry : p.entry = below.getLast?
  kept : ∀ name ∈ below.dropLast, ¬config.isIgnored name
  target : p.target = disk.reach p.path
  place : ∀ found, p.target = .ok found → found.1 = root ++ below

theorem sited_root (hlinks : disk.Linkless) (hroot : root.IsProper) :
    Sited disk config root [] (Pending.root disk root.path) where
  path := rfl
  entry := rfl
  kept := by simp
  target := rfl
  place found hfound := by
    have hleads : disk.Leads root.path found := Disk.leads_of_reach hfound
    rw [List.append_nil, hleads.eq_of_path hlinks hroot]

/-- A directory is entered if no name on the way to it is ignored, its own among them. -/
theorem Sited.not_isIgnored_iff {p : Pending} {below : List String}
    (h : Sited disk config root below p) :
    ¬p.isIgnored config ↔ ∀ name ∈ below, ¬config.isIgnored name := by
  have hkept := h.kept
  rw [Pending.isIgnored_eq, h.entry]
  rcases List.eq_nil_or_concat below with rfl | ⟨front, last, rfl⟩
  · simp
  · rw [List.concat_eq_append, List.dropLast_concat] at *
    simp only [List.getLast?_concat, Option.any_some, List.mem_append, List.mem_singleton]
    constructor
    · rintro hlast name (hname | rfl)
      · exact hkept name hname
      · exact hlast
    · exact fun hall => hall last (Or.inr rfl)

theorem Sited.child (htree : disk.IsTree) (hlinks : disk.Linkless) {p : Pending} {place : Place}
    {below : List String} {name : String} (h : Sited disk config root below p)
    (hdirectory : p.target = .ok (place, .directory)) (hkept : ¬p.isIgnored config)
    (hname : name ∈ disk.children place) :
    Sited disk config root (below ++ [name]) (Pending.child disk p place name) := by
  have hleads := Disk.leads_of_reach (h.target.symm.trans hdirectory)
  have hplace : place = root ++ below := h.place _ hdirectory
  have htarget : (Pending.child disk p place name).target = disk.reach (p.path.child name) := rfl
  refine ⟨?_, ?_, ?_, htarget, fun found hfound => ?_⟩
  · rw [Path.descend_concat, ← h.path]
    rfl
  · rw [Pending.entry_child htree hleads hname, List.getLast?_concat]
  · rw [List.dropLast_concat]
    exact h.not_isIgnored_iff.1 hkept
  · rw [htarget] at hfound
    rw [hleads.eq_concat hlinks (htree.isName_of_mem_children hname)
      (Disk.leads_of_reach hfound), hplace, List.append_assoc]

/-- Everything that the walk comes to stands where its names say. -/
theorem Walks.exists_sited (htree : disk.IsTree) (hlinks : disk.Linkless) (hroot : root.IsProper)
    (h : Walks disk config disk.directories ([root.path].map (Pending.root disk)) trail) :
    ∀ met ∈ trail, ∃ below, Sited disk config root below met.1 := by
  refine h.invariant (P := fun p => ∃ below, Sited disk config root below p) ?_ ?_
  · intro p hp
    obtain ⟨path, hpath, rfl⟩ := List.mem_map.1 hp
    rw [List.mem_singleton.1 hpath]
    exact ⟨[], sited_root hlinks hroot⟩
  · rintro left p visit left' below ⟨names, hsited⟩ hmeets child hchild
    cases hmeets with
    | enter hdirectory hloop hkept hfresh =>
      obtain ⟨name, hname, rfl⟩ := List.mem_map.1 hchild
      exact ⟨_, hsited.child htree hlinks hdirectory hkept hname⟩
    | _ => cases hchild

/-- The walk comes to what can be opened by its names, if none above it is ignored. -/
theorem Walks.exists_of_reach (htree : disk.IsTree) (hlinks : disk.Linkless)
    (hroot : root.IsProper)
    (h : Walks disk config disk.directories ([root.path].map (Pending.root disk)) trail)
    {below : List String} (hbelow : Place.IsProper below)
    (hkept : ∀ name ∈ below.dropLast, ¬config.isIgnored name) {found : Place × Disk.Target}
    (hreach : disk.reach (root.path.descend below) = .ok found) :
    ∃ met ∈ trail, Sited disk config root below met.1 := by
  induction below using List.reverseRecOn generalizing found with
  | nil =>
    obtain ⟨visit, hvisit⟩ := h.exists_of_pending (List.mem_map_of_mem (List.mem_singleton_self _))
    exact ⟨_, hvisit, sited_root hlinks hroot⟩
  | append_singleton below name ih =>
    have hname : Path.IsName name := hbelow name (by simp)
    rw [List.dropLast_concat] at hkept
    rw [Path.descend_concat] at hreach
    obtain ⟨place, hdirectory⟩ := Disk.exists_reach_of_child
      (Path.head?_descend root.head?_path below) hname hreach
    -- the directory is entered by the same names, since they say where it stands
    obtain ⟨⟨p, visit⟩, hp, hsited⟩ := ih (fun text htext => hbelow text (by simp [htext]))
      (fun dir hdir => hkept dir (List.dropLast_subset _ hdir)) hdirectory
    have htarget : p.target = .ok (place, .directory) :=
      hsited.target.trans (hsited.path ▸ hdirectory)
    have hleads := Disk.leads_of_reach hdirectory
    obtain ⟨q, hq⟩ := h.entered htree hp htarget (hsited.not_isIgnored_iff.2 hkept)
    obtain ⟨names, hsited'⟩ := h.exists_sited htree hlinks hroot _ hq
    obtain ⟨left, left', children, hmeets, hchildren⟩ := h.exists_meets hq
    cases hmeets with
    | enter htarget' hloop hkept' hfresh =>
      have hnames : root ++ names = root ++ below :=
        (hsited'.place _ htarget').symm.trans (hsited.place _ htarget)
      obtain rfl := List.append_cancel_left hnames
      have hchild : name ∈ disk.children place := by
        have hleads' := Disk.leads_of_reach hreach
        rw [htree.mem_children, ← hleads.eq_concat hlinks hname hleads']
        exact ⟨_, htree.lookup?_of_leads hleads'⟩
      obtain ⟨visit, hvisit⟩ := hchildren _ (List.mem_map_of_mem hchild)
      exact ⟨_, hvisit, hsited'.child htree hlinks htarget' hkept' hchild⟩

/-! ### The order of the walk -/

/-- Where something stands that the walk comes to. -/
def Pending.StandsAt (p : Pending) (place : Place) : Prop :=
  ∃ target, p.target = .ok (place, target)

theorem Pending.StandsAt.unique {p : Pending} {place other : Place} (h : p.StandsAt place)
    (hother : p.StandsAt other) : place = other := by
  obtain ⟨target, htarget⟩ := h
  obtain ⟨target', htarget'⟩ := hother
  rw [htarget] at htarget'
  cases htarget'
  rfl

/-- What stands below the one comes before what stands below the other. -/
def Pending.Apart (p q : Pending) : Prop :=
  ∀ place other, p.StandsAt place → q.StandsAt other → place.Apart other

/-- What is below a directory stands there under its names, in their order. -/
theorem Meets.apart_below (htree : disk.IsTree) (hlinks : disk.Linkless)
    {fresh fresh' : List Place} {p : Pending} {visit : Option Visit} {below : List Pending}
    (h : Meets disk config fresh p visit fresh' below) (htarget : p.target = disk.reach p.path) :
    below.Pairwise Pending.Apart ∧ ∀ child ∈ below, child.target = disk.reach child.path ∧
      ∃ place name, p.StandsAt place ∧ ∀ base, child.StandsAt base → base = place ++ [name] := by
  cases h with
  | @enter place hdirectory hloop hkept hfresh =>
    have hplace : ∀ name ∈ disk.children place, ∀ base,
        (Pending.child disk p place name).StandsAt base → base = place ++ [name] := by
      rintro name hname base ⟨target, hchild⟩
      have hreach : disk.reach (p.path.child name) = .ok (base, target) := hchild
      exact (Disk.leads_of_reach (htarget.symm.trans hdirectory)).eq_concat hlinks
        (htree.isName_of_mem_children hname) (Disk.leads_of_reach hreach)
    constructor
    · rw [List.pairwise_map]
      refine htree.pairwise_children.imp_of_mem ?_
      intro name name' hname hname' hlt base base' hbase hbase'
      rw [hplace name hname base hbase, hplace name' hname' base' hbase']
      exact Place.apart_of_lt place hlt
    · intro child hchild
      obtain ⟨name, hname, rfl⟩ := List.mem_map.1 hchild
      exact ⟨rfl, place, name, ⟨_, hdirectory⟩, hplace name hname⟩
  | _ => exact ⟨.nil, fun child hchild => by cases hchild⟩

/-- The walk comes to places in their order if what is pending is apart. All that it comes to
stands below something that was pending. -/
theorem Walks.pairwise_lt (htree : disk.IsTree) (hlinks : disk.Linkless) {fresh : List Place}
    {pending : List Pending} (h : Walks disk config fresh pending trail)
    (htarget : ∀ p ∈ pending, p.target = disk.reach p.path)
    (hapart : pending.Pairwise Pending.Apart) :
    (trail.Pairwise fun met met' =>
      ∀ place other, met.1.StandsAt place → met'.1.StandsAt other → place < other) ∧
    ∀ met ∈ trail, ∀ place, met.1.StandsAt place →
      ∃ p ∈ pending, ∃ base, p.StandsAt base ∧ base <+: place := by
  induction h with
  | done fresh => exact ⟨.nil, fun met hmet => by cases hmet⟩
  | @step fresh fresh' p below more visit trail hmeets hmore ih =>
    rw [List.forall_mem_cons] at htarget
    rw [List.pairwise_cons] at hapart
    obtain ⟨hbelow, hnames⟩ := hmeets.apart_below htree hlinks htarget.1
    have hnext : ∀ q ∈ below ++ more, q.target = disk.reach q.path := by
      intro q hq
      rcases List.mem_append.1 hq with hchild | hlater
      · exact (hnames q hchild).1
      · exact htarget.2 q hlater
    have hnextApart : (below ++ more).Pairwise Pending.Apart := by
      refine List.pairwise_append.2 ⟨hbelow, hapart.2, ?_⟩
      intro child hchild q hq base other hbase hother
      obtain ⟨-, place, name, hplace, hname⟩ := hnames child hchild
      rw [hname base hbase]
      simpa using (hapart.1 q hq place other hplace hother).append [name] []
    obtain ⟨hrest, hbase⟩ := ih hnext hnextApart
    constructor
    · refine List.pairwise_cons.2 ⟨fun met hmet place other hplace hother => ?_, hrest⟩
      obtain ⟨q, hq, base, hstands, tail, rfl⟩ := hbase met hmet other hother
      rcases List.mem_append.1 hq with hchild | hlater
      · obtain ⟨-, place', name, hplace', hname⟩ := hnames q hchild
        rw [hname base hstands, hplace'.unique hplace, List.append_assoc]
        exact place.lt_append_cons name tail
      · simpa using ((hapart.1 q hlater place base hplace hstands).append [] tail).lt
    · rw [List.forall_mem_cons]
      refine ⟨fun place hplace => ⟨p, List.mem_cons_self, place, hplace, List.prefix_rfl⟩, ?_⟩
      intro met hmet place hplace
      obtain ⟨q, hq, base, hstands, hprefix⟩ := hbase met hmet place hplace
      rcases List.mem_append.1 hq with hchild | hlater
      · obtain ⟨-, place', name, hplace', hname⟩ := hnames q hchild
        rw [hname base hstands] at hprefix
        exact ⟨p, List.mem_cons_self, place', hplace', (List.prefix_append ..).trans hprefix⟩
      · exact ⟨q, List.mem_cons_of_mem _ hlater, base, hstands, hprefix⟩

end

end Walk

namespace Disk

section
variable {disk : Disk} {config : IndexConfig} {root place : Place}

/-- The source files below a root are those under no ignored name that can be opened by their
names. -/
theorem mem_sources_iff_of_linkless (htree : disk.IsTree) (hlinks : disk.Linkless)
    (hroot : root.IsProper) : place ∈ disk.sources config [root.path] ↔
      ∃ below text, place = root ++ below ∧ (∀ dir ∈ below.dropLast, ¬config.isIgnored dir) ∧
        disk.reach (root.path.descend below) = .ok (place, .file text) ∧
          config.isSourcePath (root.path.descend below) := by
  obtain ⟨trail, hwalks⟩ := Walk.exists_walks disk config disk.directories
    ([root.path].map (Walk.Pending.root disk))
  rw [mem_sources_iff htree hwalks]
  constructor
  · rintro ⟨met, hmet, text, hreach, hname⟩
    obtain ⟨below, hsited⟩ := hwalks.exists_sited htree hlinks hroot met hmet
    have hplace := hsited.place _ (hsited.target.trans hreach)
    rw [hsited.path] at hreach hname
    exact ⟨below, text, hplace, hsited.kept, hreach, hname⟩
  · rintro ⟨below, text, rfl, hkept, hreach, hname⟩
    have hbelow : Place.IsProper below := fun name hmem =>
      isProper_of_reach hreach name (List.mem_append_right _ hmem)
    obtain ⟨met, hmet, hsited⟩ :=
      hwalks.exists_of_reach htree hlinks hroot hbelow hkept hreach
    rw [← hsited.path] at hreach hname
    exact ⟨met, hmet, text, hreach, hname⟩

/-- The source files below a root come in the order of their names. -/
theorem pairwise_sources (htree : disk.IsTree) (hlinks : disk.Linkless) :
    (disk.sources config [root.path]).Pairwise (· < ·) := by
  obtain ⟨trail, hwalks⟩ := Walk.exists_walks disk config disk.directories
    [Walk.Pending.root disk root.path]
  have htarget : ∀ p ∈ [Walk.Pending.root disk root.path], p.target = disk.reach p.path := by
    intro p hp
    rw [List.mem_singleton.1 hp]
    rfl
  have hstands : ∀ met ∈ trail, ∀ visit, met.2 = some visit → ∀ place,
      Walk.source? config visit = some place → met.1.StandsAt place := by
    rintro ⟨p, visit⟩ hmet _ rfl place hsource
    obtain ⟨name, rfl, -⟩ := Walk.source?_eq_some_iff.1 hsource
    obtain ⟨left, left', below, hmeets, -⟩ := hwalks.exists_meets hmet
    cases hmeets with
    | file hfile => exact ⟨_, hfile⟩
  have hpairwise := (hwalks.pairwise_lt htree hlinks htarget (List.pairwise_singleton ..)).1
  have hvisits : Walk.visits disk config [root.path] = trail.filterMap Prod.snd := hwalks.visits_eq
  rw [sources, Walk.sources, hvisits]
  refine List.Pairwise.sublist (Order.eraseDups_sublist _) ?_
  rw [List.pairwise_filterMap, List.pairwise_filterMap]
  refine hpairwise.imp_of_mem ?_
  intro met met' hmet hmet' hlt visit hvisit visit' hvisit' place hplace other hother
  exact hlt place other (hstands met hmet visit hvisit place hplace)
    (hstands met' hmet' visit' hvisit' other hother)

end

end Disk

end RakuAtlas

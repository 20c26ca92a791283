import RakuAtlas.Proofs.Disk.Places

/-!
# RakuAtlas.Proofs.Disk.Following — where paths lead

Following a path may fail although the path leads somewhere, because there are too many links on
the way or because a name or the path is too long. `Disk.Leads` says where a path leads, whatever
the limits are.

* `Follows.unique`: a path leads to one place at most.
* `Follows.of_follow`, `Follows.follow_cases`: following a path ends where it leads or at a limit.
* `leads_of_reach`, `Leads.reach_cases`: the same for paths that are opened. A path leads somewhere
  and is not followed there if it is `OverLimits`.
* `leads_child_iff`: a name leads from a directory to the same place by whatever path the
  directory is reached.
* `reach_of_followWithin`: where a path leads on a disk that is given.
-/

namespace RakuAtlas

open Text (splitWhen splitWhen_cons_of splitWhen_cons_of_not splitWhen_of_forall)

namespace Disk

/-- Where the steps of a path lead from a directory on, over any number of links. -/
inductive Follows (disk : Disk) : Place → List PathPart → Place × Target → Prop where
  | stop (place : Place) : disk.Follows place [] (place, .directory)
  | root {place : Place} {rest : List PathPart} {found : Place × Target}
      (hrest : disk.Follows [] rest found) : disk.Follows place (.root :: rest) found
  | here {place : Place} {rest : List PathPart} {found : Place × Target}
      (hrest : disk.Follows place rest found) : disk.Follows place (.here :: rest) found
  | up {place : Place} {rest : List PathPart} {found : Place × Target}
      (hrest : disk.Follows place.dropLast rest found) : disk.Follows place (.up :: rest) found
  | directory {place : Place} {text : String} {rest : List PathPart} {found : Place × Target}
      (hitem : disk.lookup? (place ++ [text]) = some .directory)
      (hrest : disk.Follows (place ++ [text]) rest found) :
      disk.Follows place (.name text :: rest) found
  | file {place : Place} {text : String} {content : Option String}
      (hitem : disk.lookup? (place ++ [text]) = some (.file content)) :
      disk.Follows place [.name text] (place ++ [text], .file content)
  | link {place : Place} {text : String} {target : Path} {rest : List PathPart}
      {found : Place × Target} (hitem : disk.lookup? (place ++ [text]) = some (.link target))
      (hrest : disk.Follows place (target.steps ++ rest) found) :
      disk.Follows place (.name text :: rest) found

section
variable {disk : Disk} {place : Place} {parts rest : List PathPart} {found found' : Place × Target}

/-- Steps lead to one place. -/
theorem Follows.unique (h : disk.Follows place parts found) (h' : disk.Follows place parts found') :
    found = found' := by
  induction h with
  | stop place =>
    cases h'
    rfl
  | root hrest ih =>
    cases h' with
    | root hrest' => exact ih hrest'
  | here hrest ih =>
    cases h' with
    | here hrest' => exact ih hrest'
  | up hrest ih =>
    cases h' with
    | up hrest' => exact ih hrest'
  | directory hitem hrest ih =>
    cases h' with
    | directory hitem' hrest' => exact ih hrest'
    | file hitem' =>
      rw [hitem] at hitem'
      cases hitem'
    | link hitem' hrest' =>
      rw [hitem] at hitem'
      cases hitem'
  | file hitem =>
    cases h' with
    | directory hitem' hrest' =>
      rw [hitem] at hitem'
      cases hitem'
    | file hitem' =>
      rw [hitem] at hitem'
      cases hitem'
      rfl
    | link hitem' hrest' =>
      rw [hitem] at hitem'
      cases hitem'
  | link hitem hrest ih =>
    cases h' with
    | directory hitem' hrest' =>
      rw [hitem] at hitem'
      cases hitem'
    | file hitem' =>
      rw [hitem] at hitem'
      cases hitem'
    | link hitem' hrest' =>
      rw [hitem] at hitem'
      cases hitem'
      exact ih hrest'

/-- Following steps ends where they lead. -/
theorem Follows.of_follow {links : Nat} (h : disk.follow links place parts = .ok found) :
    disk.Follows place parts found := by
  fun_induction follow disk links place parts with
  | case1 links place =>
    cases h
    exact .stop place
  | case2 links place rest ih => exact .root (ih h)
  | case3 links place rest ih => exact .here (ih h)
  | case4 links place rest ih => exact .up (ih h)
  | case5 links place text rest hlimit => cases h
  | case6 links place text rest next hlimit hitem => cases h
  | case7 links place text rest next hlimit hitem ih => exact .directory hitem (ih h)
  | case8 links place text next hlimit content hitem =>
    cases h
    exact .file hitem
  | case9 links place text rest next hlimit content hitem hmore => cases h
  | case10 place text rest next hlimit target hitem => cases h
  | case11 place text rest next hlimit target hitem k ih => exact .link hitem (ih h)

/-- Where steps lead they are followed, up to the limits. -/
theorem Follows.follow_cases (h : disk.Follows place parts found) (links : Nat) :
    disk.follow links place parts = .ok found ∨
      disk.follow links place parts = .error .tooManyLinks ∨
        disk.follow links place parts = .error .nameTooLong := by
  induction h generalizing links with
  | stop place => exact Or.inl (by rw [follow])
  | root hrest ih =>
    rw [follow]
    exact ih links
  | here hrest ih =>
    rw [follow]
    exact ih links
  | up hrest ih =>
    rw [follow]
    exact ih links
  | directory hitem hrest ih =>
    rw [follow]
    split
    · exact Or.inr (Or.inr rfl)
    · simp only [hitem]
      exact ih links
  | file hitem =>
    rw [follow]
    split
    · exact Or.inr (Or.inr rfl)
    · simp only [hitem, if_true, true_or]
  | link hitem hrest ih =>
    cases links with
    | zero =>
      rw [follow]
      split
      · exact Or.inr (Or.inr rfl)
      · simp only [hitem, true_or, or_true]
    | succ k =>
      rw [follow]
      split
      · exact Or.inr (Or.inr rfl)
      · simp only [hitem]
        exact ih k

/-- Further steps start from the directory where the first ones lead. -/
theorem Follows.append {middle : Place} (h : disk.Follows place parts (middle, .directory))
    (hrest : disk.Follows middle rest found) : disk.Follows place (parts ++ rest) found := by
  generalize hend : (middle, Target.directory) = stop at h
  induction h with
  | stop place =>
    obtain ⟨rfl, -⟩ := Prod.mk.inj hend
    exact hrest
  | root hmore ih => exact .root (ih hend)
  | here hmore ih => exact .here (ih hend)
  | up hmore ih => exact .up (ih hend)
  | directory hitem hmore ih => exact .directory hitem (ih hend)
  | file hitem => cases hend
  | link hitem hmore ih =>
    exact .link hitem (List.append_assoc .. ▸ ih hend)

/-- If steps are cut in two at some point behind their first one, or in front of it, the first part
leads to a directory as soon as this holds for the steps that the first one goes on with: `front`
and then what stands behind it. -/
theorem Follows.exists_of_append_cons (front : List PathPart) {part : PathPart}
    {more : List PathPart} {next : Place}
    (step : ∀ {rest found}, disk.Follows next (front ++ rest) found →
      disk.Follows place (part :: rest) found)
    (hfound : disk.Follows next (front ++ more) found)
    (hnext : ∀ parts, parts ++ rest = front ++ more →
      ∃ middle, disk.Follows next parts (middle, .directory) ∧ disk.Follows middle rest found)
    (hall : parts ++ rest = part :: more) :
    ∃ middle, disk.Follows place parts (middle, .directory) ∧ disk.Follows middle rest found := by
  cases parts with
  | nil =>
    rw [List.nil_append] at hall
    subst hall
    exact ⟨place, .stop place, step hfound⟩
  | cons head parts =>
    obtain ⟨rfl, rfl⟩ := List.cons.inj hall
    obtain ⟨middle, hfirst, hlast⟩ := hnext (front ++ parts) (List.append_assoc ..)
    exact ⟨middle, step hfirst, hlast⟩

/-- Steps before others lead to a directory. -/
theorem Follows.exists_of_append (hmore : rest ≠ [])
    (h : disk.Follows place (parts ++ rest) found) :
    ∃ middle, disk.Follows place parts (middle, .directory) ∧ disk.Follows middle rest found := by
  generalize hall : parts ++ rest = steps at h
  induction h generalizing parts with
  | stop place =>
    rw [List.append_eq_nil_iff] at hall
    exact absurd hall.2 hmore
  | root hfound ih => exact exists_of_append_cons [] .root hfound (fun _ => ih) hall
  | here hfound ih => exact exists_of_append_cons [] .here hfound (fun _ => ih) hall
  | up hfound ih => exact exists_of_append_cons [] .up hfound (fun _ => ih) hall
  | directory hitem hfound ih =>
    exact exists_of_append_cons [] (.directory hitem) hfound (fun _ => ih) hall
  | link hitem hfound ih => exact exists_of_append_cons _ (.link hitem) hfound (fun _ => ih) hall
  | @file place text content hitem =>
    -- a file ends the steps, so that all of them stand in the second part
    cases parts with
    | nil =>
      rw [List.nil_append] at hall
      subst hall
      exact ⟨place, .stop place, .file hitem⟩
    | cons part parts =>
      obtain ⟨-, hnil⟩ := List.cons.inj hall
      exact absurd (List.append_eq_nil_iff.1 hnil).2 hmore

end

/-- Further steps go on from the directory where the first ones end, with the links that are left,
or nothing goes on. -/
theorem follow_append (disk : Disk) (links : Nat) (place : Place) (parts : List PathPart) :
    (∃ left middle, ∀ rest, disk.follow links place (parts ++ rest) =
      disk.follow left middle rest) ∨
    ∃ e, ∀ rest, rest ≠ [] → disk.follow links place (parts ++ rest) = .error e := by
  fun_induction follow disk links place parts with
  | case1 links place => exact Or.inl ⟨links, place, fun rest => rfl⟩
  | case2 links place more ih => simpa only [List.cons_append, follow] using ih
  | case3 links place more ih => simpa only [List.cons_append, follow] using ih
  | case4 links place more ih => simpa only [List.cons_append, follow] using ih
  | case5 links place text more hlimit =>
    refine Or.inr ⟨.nameTooLong, fun rest _ => ?_⟩
    rw [List.cons_append, follow, if_pos hlimit]
  | case6 links place text more next hlimit hitem =>
    refine Or.inr ⟨.notFound, fun rest _ => ?_⟩
    rw [List.cons_append, follow, if_neg hlimit]
    simp only [next] at hitem
    simp only [hitem]
  | case7 links place text more next hlimit hitem ih =>
    simp only [next] at hitem
    simpa only [List.cons_append, follow, hlimit, if_false, hitem] using ih
  | case8 links place text next hlimit content hitem =>
    refine Or.inr ⟨.notADirectory, fun rest hrest => ?_⟩
    rw [List.cons_append, follow, if_neg hlimit]
    simp only [next] at hitem
    simp [hitem, hrest]
  | case9 links place text more next hlimit content hitem hmore =>
    refine Or.inr ⟨.notADirectory, fun rest hrest => ?_⟩
    rw [List.cons_append, follow, if_neg hlimit]
    simp only [next] at hitem
    simp [hitem, hmore]
  | case10 place text more next hlimit target hitem =>
    refine Or.inr ⟨.tooManyLinks, fun rest _ => ?_⟩
    rw [List.cons_append, follow, if_neg hlimit]
    simp only [next] at hitem
    simp only [hitem]
  | case11 place text more next hlimit target hitem k ih =>
    simp only [next] at hitem
    simpa only [List.cons_append, List.append_assoc, follow, hlimit, if_false, hitem] using ih

/-! ## Paths -/

/-- Where a path leads, whatever the limits are. -/
def Leads (disk : Disk) (path : Path) (found : Place × Target) : Prop :=
  path.isWellFormed ∧ ∃ steps, path.steps = .root :: steps ∧ disk.Follows [] steps found

/-- A path that leads somewhere cannot be opened: it is too long, a name on the way is, or there
are too many links on the way. -/
def OverLimits (disk : Disk) (path : Path) : Prop :=
  (∃ found, disk.Leads path found) ∧
    (disk.reach path = .error .nameTooLong ∨ disk.reach path = .error .tooManyLinks)

section
variable {disk : Disk} {path : Path} {found found' : Place × Target}

theorem reach_eq_ok_iff : disk.reach path = .ok found ↔ path.isWellFormed ∧
    path.spelling.utf8ByteSize ≤ pathLimit ∧
      ∃ steps, path.steps = .root :: steps ∧ disk.follow linkLimit [] steps = .ok found := by
  unfold reach resolve
  by_cases hwell : path.isWellFormed = true
  · by_cases hlong : pathLimit < path.spelling.utf8ByteSize
    · simp [hwell, hlong, Nat.not_le.2 hlong]
    · rw [if_neg (by simp [hlong]), if_pos hwell]
      constructor
      · intro h
        split at h
        · next steps hsteps => exact ⟨hwell, Nat.not_lt.1 hlong, steps, hsteps, h⟩
        · cases h
      · rintro ⟨-, -, steps, hsteps, hfollow⟩
        rw [hsteps]
        exact hfollow
  · simp [hwell]

theorem Leads.unique (h : disk.Leads path found) (h' : disk.Leads path found') :
    found = found' := by
  obtain ⟨-, steps, hsteps, hfollows⟩ := h
  obtain ⟨-, steps', hsteps', hfollows'⟩ := h'
  rw [hsteps, List.cons.injEq] at hsteps'
  obtain ⟨-, rfl⟩ := hsteps'
  exact hfollows.unique hfollows'

theorem leads_of_resolve (h : disk.resolve path = .ok found) : disk.Leads path found := by
  unfold resolve at h
  split at h
  · next hwell =>
    split at h
    · next steps hsteps => exact ⟨hwell, steps, hsteps, .of_follow h⟩
    · cases h
  · cases h

theorem resolve_of_reach (h : disk.reach path = .ok found) : disk.resolve path = .ok found := by
  unfold reach at h
  split at h
  · cases h
  · exact h

/-- A path that can be opened leads where it is opened. -/
theorem leads_of_reach (h : disk.reach path = .ok found) : disk.Leads path found := by
  obtain ⟨hwell, -, steps, hsteps, hfollow⟩ := reach_eq_ok_iff.1 h
  exact ⟨hwell, steps, hsteps, .of_follow hfollow⟩

/-- A path that leads somewhere is opened there, or it is over the limits. -/
theorem Leads.reach_cases (h : disk.Leads path found) :
    disk.reach path = .ok found ∨ disk.OverLimits path := by
  obtain ⟨hwell, steps, hsteps, hfollows⟩ := h
  have hleads : ∃ found, disk.Leads path found := ⟨found, hwell, steps, hsteps, hfollows⟩
  unfold reach
  split
  · exact Or.inr ⟨hleads, Or.inl (by rw [reach, if_pos ‹_›])⟩
  · next hshort =>
    have hresolve : disk.resolve path = disk.follow linkLimit [] steps := by
      rw [resolve, if_pos hwell, hsteps]
    rcases hfollows.follow_cases linkLimit with hok | hlinks | hname
    · exact Or.inl (hresolve.trans hok)
    · exact Or.inr ⟨hleads, Or.inr (by rw [reach, if_neg hshort, hresolve, hlinks])⟩
    · exact Or.inr ⟨hleads, Or.inl (by rw [reach, if_neg hshort, hresolve, hname])⟩

theorem not_overLimits_of_reach (h : disk.reach path = .ok found) : ¬disk.OverLimits path := by
  rintro ⟨-, hname | hlinks⟩
  · cases h.symm.trans hname
  · cases h.symm.trans hlinks

theorem Leads.reach_eq (h : disk.Leads path found) (hlimits : ¬disk.OverLimits path) :
    disk.reach path = .ok found := h.reach_cases.resolve_right hlimits

end

end Disk

/-! ## Following step by step -/

namespace Disk

/-- Following a path with a bound on the steps that are taken, for disks that are given. -/
def followWithin (disk : Disk) :
    Nat → Nat → Place → List PathPart → Option (Except AccessError (Place × Target))
  | 0, _, _, _ => none
  | _ + 1, _, place, [] => some (.ok (place, .directory))
  | fuel + 1, links, _, .root :: rest => disk.followWithin fuel links [] rest
  | fuel + 1, links, place, .here :: rest => disk.followWithin fuel links place rest
  | fuel + 1, links, place, .up :: rest => disk.followWithin fuel links place.dropLast rest
  | fuel + 1, links, place, .name text :: rest =>
    if nameLimit < text.utf8ByteSize then some (.error .nameTooLong)
    else match disk.lookup? (place ++ [text]) with
      | none => some (.error .notFound)
      | some .directory => disk.followWithin fuel links (place ++ [text]) rest
      | some (.file content) =>
        some (if rest = [] then .ok (place ++ [text], .file content) else .error .notADirectory)
      | some (.link target) =>
        match links with
        | 0 => some (.error .tooManyLinks)
        | k + 1 => disk.followWithin fuel k place (target.steps ++ rest)

section
variable {disk : Disk} {fuel links : Nat} {place : Place} {parts : List PathPart} {path : Path}
  {found : Except AccessError (Place × Target)}

theorem follow_of_followWithin (h : disk.followWithin fuel links place parts = some found) :
    disk.follow links place parts = found := by
  fun_induction followWithin disk fuel links place parts with
  | case1 links place parts => cases h
  | case2 fuel links place =>
    rw [follow]
    exact Option.some.inj h
  | case3 fuel links place rest ih =>
    rw [follow]
    exact ih h
  | case4 fuel links place rest ih =>
    rw [follow]
    exact ih h
  | case5 fuel links place rest ih =>
    rw [follow]
    exact ih h
  | case6 fuel links place text rest hlimit =>
    rw [follow, if_pos hlimit]
    exact Option.some.inj h
  | case7 fuel links place text rest hlimit hitem =>
    rw [follow, if_neg hlimit]
    simp only [hitem]
    exact Option.some.inj h
  | case8 fuel links place text rest hlimit hitem ih =>
    rw [follow, if_neg hlimit]
    simp only [hitem]
    exact ih h
  | case9 fuel links place text rest hlimit content hitem =>
    rw [follow, if_neg hlimit]
    simp only [hitem]
    exact Option.some.inj h
  | case10 fuel place text rest hlimit target hitem =>
    rw [follow, if_neg hlimit]
    simp only [hitem]
    exact Option.some.inj h
  | case11 fuel place text rest hlimit target hitem k ih =>
    rw [follow, if_neg hlimit]
    simp only [hitem]
    exact ih h

/-- A path is opened by following its steps. -/
theorem reach_of_followWithin (fuel : Nat) (h : (path.isWellFormed ∧
    path.spelling.utf8ByteSize ≤ pathLimit) ∧ path.steps.head? = some .root ∧
      disk.followWithin fuel linkLimit [] path.steps.tail = some found) :
    disk.reach path = found := by
  obtain ⟨⟨hwell, hshort⟩, hroot, hfollow⟩ := h
  rw [reach, if_neg (by simp [Nat.not_lt.2 hshort]), resolve, if_pos hwell]
  cases hsteps : path.steps with
  | nil =>
    rw [hsteps] at hroot
    cases hroot
  | cons part steps =>
    rw [hsteps] at hroot hfollow
    obtain rfl := Option.some.inj hroot
    exact follow_of_followWithin hfollow

end

end Disk

/-! ## Names in directories -/

namespace Path

/-- A separator ends a piece wherever it stands. -/
theorem splitWhen_append_cons {p : Char → Bool} {sep : Char} (hsep : p sep = true)
    (cs rest : List Char) :
    splitWhen p (cs ++ sep :: rest) = splitWhen p cs ++ splitWhen p rest := by
  induction cs with
  | nil => exact splitWhen_cons_of hsep rest
  | cons c cs ih =>
    rw [List.cons_append]
    cases hc : p c with
    | true => rw [splitWhen_cons_of hc, splitWhen_cons_of hc, ih, List.cons_append]
    | false =>
      obtain ⟨part, parts, hsplit, hcons⟩ := splitWhen_cons_of_not hc cs
      obtain ⟨part', parts', hsplit', hcons'⟩ := splitWhen_cons_of_not hc (cs ++ sep :: rest)
      rw [ih, hsplit, List.cons_append, List.cons.injEq] at hsplit'
      rw [hcons, hcons', ← hsplit'.1, ← hsplit'.2, List.cons_append]

/-- No piece between slashes is the slash in front. -/
theorem partOf?_ne_root (piece : List Char) : partOf? piece ≠ some .root := by
  intro h
  unfold partOf? at h
  split at h
  · cases h
  · split at h
    · cases h
    · cases h

section
variable {path : Path} {name : String}

/-- Steps that start at the root are those of a path with a slash in front. -/
theorem head?_of_steps {more : List PathPart} (h : path.steps = .root :: more) :
    path.spelling.toList.head? = some '/' := by
  have hinner : .root ∉ (splitWhen (· == '/') path.spelling.toList).filterMap partOf? := by
    intro hroot
    obtain ⟨piece, -, hpiece⟩ := List.mem_filterMap.1 hroot
    exact partOf?_ne_root piece hpiece
  refine Decidable.byContradiction fun hslash => ?_
  have hparts : .root ∉ path.parts := by
    unfold parts
    rw [if_neg hslash]
    split
    · rw [List.mem_cons, not_or]
      exact ⟨by simp, hinner⟩
    · exact hinner
  have hsteps : .root ∈ path.steps := h ▸ List.mem_cons_self
  unfold steps at hsteps
  split at hsteps
  · rcases List.mem_append.1 hsteps with hpart | hhere
    · exact hparts hpart
    · cases List.mem_singleton.1 hhere
  · exact hparts hsteps

/-- The spelling of a path in a directory ends in a slash and the name. What is before them is the
path of the directory, but for a slash at its end. -/
theorem exists_front_child (hslash : path.spelling.toList.head? = some '/') (name : String) :
    ∃ front, (path.child name).spelling.toList = front ++ '/' :: name.toList ∧
      (path.spelling.toList = front ∨ path.spelling.toList = front ++ ['/']) := by
  unfold child
  cases hlast : path.spelling.toList.getLast? with
  | none =>
    rw [List.getLast?_eq_none_iff.1 hlast] at hslash
    cases hslash
  | some last =>
    simp only [Option.all_some]
    split
    · next hsep =>
      obtain ⟨front, hfront⟩ := List.getLast?_eq_some_iff.1 hlast
      rw [eq_of_beq hsep] at hfront
      refine ⟨front, ?_, Or.inr hfront⟩
      rw [String.toList_append, hfront, List.append_assoc, List.singleton_append]
    · refine ⟨path.spelling.toList, ?_, Or.inl rfl⟩
      rw [String.toList_append, String.toList_append, List.append_assoc]
      rfl

theorem isWellFormed_child :
    (path.child name).isWellFormed ↔ path.isWellFormed ∧ '\x00' ∉ name.toList := by
  unfold child
  split
  · simp [isWellFormed]
  · simp [isWellFormed]

theorem head?_child (hslash : path.spelling.toList.head? = some '/') :
    (path.child name).spelling.toList.head? = some '/' := by
  unfold child
  split
  · rw [String.toList_append, List.head?_append, hslash]
    rfl
  · rw [String.toList_append, String.toList_append, List.append_assoc, List.head?_append, hslash]
    rfl

theorem utf8ByteSize_add_le_child (path : Path) (name : String) :
    path.spelling.utf8ByteSize + name.utf8ByteSize ≤
      (path.child name).spelling.utf8ByteSize := by
  unfold child
  split
  · exact Nat.le_of_eq (String.utf8ByteSize_append ..).symm
  · rw [String.utf8ByteSize_append, String.utf8ByteSize_append]
    omega

theorem exists_parts_of_head? (hslash : path.spelling.toList.head? = some '/') :
    ∃ parts, path.parts = .root :: parts := by
  unfold parts
  rw [if_pos hslash]
  exact ⟨_, rfl⟩

theorem parts_child (hslash : path.spelling.toList.head? = some '/') (hname : IsName name) :
    (path.child name).parts = path.parts ++ [.name name] := by
  obtain ⟨front, hchild, hpath⟩ := exists_front_child hslash name
  have hpieces : splitWhen (· == '/') (path.child name).spelling.toList =
      splitWhen (· == '/') front ++ [name.toList] := by
    rw [hchild, splitWhen_append_cons rfl]
    exact congrArg _ (splitWhen_of_forall fun c hc => beq_false_of_ne fun h => hname.1 (h ▸ hc))
  -- a slash at the end of the path cuts off an empty piece, which is no part
  have hinner : (splitWhen (· == '/') path.spelling.toList).filterMap partOf? =
      (splitWhen (· == '/') front).filterMap partOf? := by
    rcases hpath with hpath | hpath
    · rw [hpath]
    · rw [hpath, splitWhen_append_cons rfl, List.filterMap_append]
      exact List.append_nil _
  unfold parts
  rw [if_pos hslash, if_pos (head?_child hslash), hpieces, hinner, List.filterMap_append,
    List.filterMap_cons_some hname.2]
  rfl

theorem fileName?_child (hslash : path.spelling.toList.head? = some '/') (hname : IsName name) :
    (path.child name).fileName? = some name := by
  simp [fileName?, parts_child hslash hname]

/-- A name does not say that it is a directory. -/
theorem steps_child (hslash : path.spelling.toList.head? = some '/') (hname : IsName name) :
    (path.child name).steps = path.parts ++ [.name name] := by
  have hplain : (path.child name).wantsDirectory = false := by
    obtain ⟨hinside, hpart⟩ := hname
    obtain ⟨front, hchild, -⟩ := exists_front_child hslash name
    unfold wantsDirectory
    rw [hchild, List.reverse_append, List.reverse_cons, List.append_assoc]
    rw [← List.mem_reverse] at hinside
    cases hreverse : name.toList.reverse with
    | nil =>
      rw [List.reverse_eq_nil_iff.1 hreverse] at hpart
      cases hpart
    | cons c rest =>
      rw [hreverse, List.mem_cons, not_or] at hinside
      cases rest with
      | nil =>
        have hdot : c ≠ '.' := by
          rintro rfl
          rw [List.reverse_eq_iff.1 hreverse] at hpart
          cases hpart
        simp [hdot, Ne.symm hinside.1]
      | cons d rest =>
        rw [List.mem_cons, not_or] at hinside
        simp [Ne.symm hinside.1, Ne.symm hinside.2.1]
  rw [steps, hplain, if_neg Bool.false_ne_true, parts_child hslash hname]

end

end Path

namespace Disk

section
variable {disk : Disk} {path : Path} {place : Place} {found : Place × Target} {name : String}

/-- A path that leads somewhere has a slash in front. -/
theorem Leads.head? (h : disk.Leads path found) : path.spelling.toList.head? = some '/' := by
  obtain ⟨-, steps, hsteps, -⟩ := h
  exact Path.head?_of_steps hsteps

/-- A directory is where its path leads also without what says that it is one. -/
theorem Leads.exists_parts (h : disk.Leads path (place, .directory)) :
    ∃ parts, path.parts = .root :: parts ∧ disk.Follows [] parts (place, .directory) := by
  obtain ⟨-, steps, hsteps, hfollows⟩ := h
  unfold Path.steps at hsteps
  split at hsteps
  · cases hparts : path.parts with
    | nil =>
      rw [hparts] at hsteps
      cases hsteps
    | cons part parts =>
      rw [hparts, List.cons_append, List.cons.injEq] at hsteps
      obtain ⟨rfl, rfl⟩ := hsteps
      obtain ⟨middle, hfirst, hlast⟩ := Follows.exists_of_append (List.cons_ne_nil _ _) hfollows
      cases hlast with
      | here hstop =>
        cases hstop
        exact ⟨parts, rfl, hfirst⟩
  · exact ⟨steps, hsteps, hfollows⟩

/-- A name leads from a directory to the same place by whatever path the directory is reached. -/
theorem leads_child_iff (h : disk.Leads path (place, .directory)) (hname : Path.IsName name) :
    disk.Leads (path.child name) found ↔
      '\x00' ∉ name.toList ∧ disk.Follows place [.name name] found := by
  obtain ⟨parts, hparts, hfollows⟩ := h.exists_parts
  have hchild := Path.steps_child h.head? hname
  have hwell := h.1
  have hwellFormed : (path.child name).isWellFormed ↔ '\x00' ∉ name.toList := by
    rw [Path.isWellFormed_child, and_iff_right hwell]
  rw [Leads, hwellFormed, hchild, hparts]
  refine and_congr_right fun _ => ?_
  constructor
  · rintro ⟨steps, hall, hfound⟩
    rw [List.cons_append, List.cons.injEq] at hall
    obtain ⟨-, rfl⟩ := hall
    obtain ⟨middle, hfirst, hlast⟩ := Follows.exists_of_append (List.cons_ne_nil _ _) hfound
    obtain ⟨rfl, -⟩ := Prod.mk.inj (hfirst.unique hfollows)
    exact hlast
  · intro hlast
    exact ⟨_, rfl, hfollows.append hlast⟩

/-- What is opened in a directory was opened with the directory. -/
theorem exists_reach_of_child (hslash : path.spelling.toList.head? = some '/')
    (hname : Path.IsName name) (h : disk.reach (path.child name) = .ok found) :
    ∃ place, disk.reach path = .ok (place, .directory) := by
  obtain ⟨hwell, hshort, steps, hsteps, hfollow⟩ := reach_eq_ok_iff.1 h
  obtain ⟨parts, hparts⟩ := Path.exists_parts_of_head? hslash
  rw [Path.steps_child hslash hname, hparts, List.cons_append, List.cons.injEq] at hsteps
  obtain ⟨-, rfl⟩ := hsteps
  rcases follow_append disk linkLimit [] parts with ⟨left, middle, hmore⟩ | ⟨e, herror⟩
  · refine ⟨middle, reach_eq_ok_iff.2 ⟨?_, ?_, ?_⟩⟩
    · exact (Path.isWellFormed_child.1 hwell).1
    · exact Nat.le_trans (Nat.le_of_add_right_le (Path.utf8ByteSize_add_le_child path name)) hshort
    · unfold Path.steps
      rw [hparts]
      split
      · refine ⟨parts ++ [.here], rfl, ?_⟩
        rw [hmore, follow, follow]
      · refine ⟨parts, rfl, ?_⟩
        rw [← List.append_nil parts, hmore, follow]
  · cases (herror _ (List.cons_ne_nil _ _)).symm.trans hfollow

end

end Disk

end RakuAtlas

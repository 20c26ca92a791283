import Mathlib.Data.List.Infix
import Mathlib.Data.List.TakeWhile
import RakuAtlas.Proofs.Disk.Places
import RakuAtlas.Workspace.Modules

/-!
# RakuAtlas.Proofs.Workspace.ModuleNames — names that files spell

A module file defines the module whose name is spelled by the directories below the include path
and by its own name without the extension.

* `FileName.split?_eq_some_iff`: a file name cut at its last dot.
* `IndexConfig.isSource_iff`: source files by their extension.
* `ModuleMap.moduleName?_append`: the module that a file below an include path defines.
-/

namespace RakuAtlas

open Text (splitWhen splitWhen_cons_of splitWhen_intercalate)

namespace FileName

/-- The last dot parts the extension from what is in front, which is not empty. -/
theorem split?_eq_some_iff {name front last : List Char} :
    split? name = some (front, last) ↔ name = front ++ '.' :: last ∧ front ≠ [] ∧ '.' ∉ last := by
  have hdrop : ∀ xs : List Char,
      xs.drop (xs.takeWhile (· ≠ '.')).length = xs.dropWhile (· ≠ '.') := by
    intro xs
    have hleft := @List.drop_left _ (xs.takeWhile (· ≠ '.')) (xs.dropWhile (· ≠ '.'))
    rwa [List.takeWhile_append_dropWhile] at hleft
  unfold split?
  simp only
  rw [hdrop]
  constructor
  · intro h
    split at h
    · next dot stem hstem =>
      split at h
      · cases h
      · next hne =>
        cases h
        have hdot : dot = '.' := by
          have hhead := List.head?_dropWhile_not (· ≠ '.') name.reverse
          rw [hstem] at hhead
          simpa using hhead
        have hname := @List.takeWhile_append_dropWhile _ (· ≠ '.') name.reverse
        rw [hstem, hdot] at hname
        refine ⟨?_, by simpa using hne, ?_⟩
        · simpa using (congrArg List.reverse hname).symm
        · intro hmem
          simpa using List.mem_takeWhile_imp (List.mem_reverse.1 hmem)
    · cases h
  · rintro ⟨rfl, hfront, hlast⟩
    have hplain : ∀ c ∈ last.reverse, decide (c ≠ '.') = true := by
      intro c hc
      refine decide_eq_true ?_
      rintro rfl
      exact hlast (List.mem_reverse.1 hc)
    have hreverse : (front ++ '.' :: last).reverse = last.reverse ++ '.' :: front.reverse := by simp
    rw [hreverse, List.dropWhile_append_of_pos hplain, List.takeWhile_append_of_pos hplain]
    simp [hfront]

/-- The name in front of an extension. -/
theorem stem_eq {front last : String} (hdot : front ≠ ".") (hfront : front ≠ "")
    (hlast : '.' ∉ last.toList) : stem (front ++ "." ++ last) = front := by
  have hsplit : split? (front ++ "." ++ last).toList = some (front.toList, last.toList) := by
    refine split?_eq_some_iff.2 ⟨by simp, by simpa using hfront, hlast⟩
  unfold stem
  rw [hsplit]
  split
  · next hfrontDot =>
    obtain ⟨hfrontDot, -⟩ := Prod.mk.inj (Option.some.inj hfrontDot)
    exact absurd (String.toList_inj.1 hfrontDot) hdot
  · next front' last' _ heq =>
    obtain ⟨rfl, -⟩ := Prod.mk.inj (Option.some.inj heq)
    exact String.ofList_toList
  · next hnone => cases hnone

theorem extension?_eq_some_iff {name last : String} : extension? name = some last ↔
    ∃ front, name = front ++ "." ++ last ∧ front ≠ "" ∧ '.' ∉ last.toList := by
  rw [extension?, Option.map_eq_some_iff]
  constructor
  · rintro ⟨⟨front, ext⟩, hsplit, rfl⟩
    obtain ⟨hname, hfront, hext⟩ := split?_eq_some_iff.1 hsplit
    refine ⟨String.ofList front, String.toList_inj.1 ?_, ?_, ?_⟩
    · simp [hname]
    · simpa using hfront
    · simpa using hext
  · rintro ⟨front, rfl, hfront, hlast⟩
    refine ⟨(front.toList, last.toList), split?_eq_some_iff.2 ⟨by simp, ?_, hlast⟩, ?_⟩
    · simpa using hfront
    · exact String.ofList_toList

end FileName

/-- Source files are told by their extension. -/
theorem IndexConfig.isSource_iff {config : IndexConfig} {name : String} :
    config.isSource name ↔ ∃ front last, name = front ++ "." ++ last ∧ front ≠ "" ∧
      '.' ∉ last.toList ∧ config.extensions.any (sameLetters · last) := by
  unfold isSource
  split
  · next last hlast =>
    obtain ⟨front, rfl, hfront, hdot⟩ := FileName.extension?_eq_some_iff.1 hlast
    constructor
    · exact fun hany => ⟨front, last, rfl, hfront, hdot, hany⟩
    · rintro ⟨front', last', hname, hfront', hdot', hany⟩
      rw [FileName.extension?_eq_some_iff.2 ⟨front', hname, hfront', hdot'⟩] at hlast
      cases hlast
      exact hany
  · next hnone =>
    constructor
    · intro h
      cases h
    · rintro ⟨front, last, hname, hfront, hdot, -⟩
      rw [FileName.extension?_eq_some_iff.2 ⟨front, hname, hfront, hdot⟩] at hnone
      cases hnone

namespace Path

theorem IsName.ne_empty {text : String} (h : IsName text) : text ≠ "" := by
  rintro rfl
  cases h.2

theorem IsName.ne_dot {text : String} (h : IsName text) : text ≠ "." := by
  rintro rfl
  cases h.2

/-- A piece that is not empty and no dot is the part that it stands for. -/
theorem exists_partOf?_render {piece : String} (hne : piece ≠ "") (hdot : piece ≠ ".") :
    ∃ part, partOf? piece.toList = some part ∧ part.render = piece := by
  have hhere : ¬(piece.toList = [] || piece.toList = ['.']) := by
    simp only [Bool.or_eq_true, decide_eq_true_eq, not_or]
    exact ⟨by simpa using hne, fun h => hdot (String.toList_inj.1 h)⟩
  unfold partOf?
  rw [if_neg hhere]
  split
  · next hup => exact ⟨.up, rfl, (String.toList_inj.1 hup).symm⟩
  · exact ⟨_, rfl, String.ofList_toList⟩

theorem map_render_filterMap {pieces : List String}
    (h : ∀ piece ∈ pieces, piece ≠ "" ∧ piece ≠ ".") :
    ((pieces.map String.toList).filterMap partOf?).map PathPart.render = pieces := by
  induction pieces with
  | nil => rfl
  | cons piece more ih =>
    rw [List.forall_mem_cons] at h
    obtain ⟨part, hpart, hrender⟩ := exists_partOf?_render h.1.1 h.1.2
    rw [List.map_cons, List.filterMap_cons_some hpart, List.map_cons, hrender, ih h.2]

/-- Pieces that are not empty and no dots are the parts of the path that they spell. -/
theorem map_render_parts {pieces : List String} (hpieces : pieces ≠ [])
    (h : ∀ piece ∈ pieces, '/' ∉ piece.toList ∧ piece ≠ "" ∧ piece ≠ ".") :
    (Path.parts ⟨"/".intercalate pieces⟩).map PathPart.render = pieces := by
  have hsplit : splitWhen (· == '/') ("/".intercalate pieces).toList =
      pieces.map String.toList := by
    rw [String.toList_intercalate]
    refine splitWhen_intercalate rfl (by simpa using hpieces) ?_
    intro piece hpiece c hc
    obtain ⟨text, htext, rfl⟩ := List.mem_map.1 hpiece
    refine beq_false_of_ne ?_
    rintro rfl
    exact (h text htext).1 hc
  have hplain := map_render_filterMap fun piece hpiece => (h piece hpiece).2
  obtain ⟨first, more, rfl⟩ := List.exists_cons_of_ne_nil hpieces
  have hfirst := (h first List.mem_cons_self).2
  unfold parts
  simp only
  rw [hsplit, if_neg, if_neg, hplain]
  · intro hdot
    exact hfirst.2 (String.toList_inj.1 (Option.some.inj hdot))
  · -- behind a slash in front there would be an empty piece
    intro hslash
    obtain ⟨rest, hrest⟩ := List.head?_eq_some_iff.1 hslash
    rw [hrest, splitWhen_cons_of rfl] at hsplit
    exact hfirst.1 (String.toList_inj.1 (List.cons.inj hsplit).1.symm)

end Path

namespace ModuleMap

/-- The module that a file below an include path defines. -/
theorem moduleName?_append {root : Place} {dirs : List String} {front last : String}
    (hdirs : Place.IsProper dirs) (hfront : '/' ∉ front.toList ∧ front ≠ "" ∧ front ≠ ".")
    (hlast : '.' ∉ last.toList) :
    moduleName? root (root ++ (dirs ++ [front ++ "." ++ last])) =
      some ("::".intercalate (dirs ++ [front])) := by
  have hbelow : root.isPrefixOf? (root ++ (dirs ++ [front ++ "." ++ last])) =
      some (dirs ++ [front ++ "." ++ last]) := List.isPrefixOf?_eq_some_iff_append_eq.2 rfl
  have hparts : (Path.parts ⟨"/".intercalate (dirs ++ [front])⟩).map PathPart.render =
      dirs ++ [front] := by
    refine Path.map_render_parts (by simp) fun piece hpiece => ?_
    rcases List.mem_append.1 hpiece with hdir | hfile
    · exact ⟨(hdirs piece hdir).1, (hdirs piece hdir).ne_empty, (hdirs piece hdir).ne_dot⟩
    · rw [List.mem_singleton.1 hfile]
      exact hfront
  rw [moduleName?, hbelow]
  simp only [Option.bind_eq_bind, Option.bind_some, List.getLast?_concat, List.dropLast_concat,
    FileName.stem_eq hfront.2.2 hfront.2.1 hlast]
  split
  · next hnil =>
    rw [hnil] at hparts
    simp at hparts
  · rw [hparts]

/-- The include path itself defines no module. -/
theorem moduleName?_self (root : Place) : moduleName? root root = none := by
  have hbelow : root.isPrefixOf? root = some [] :=
    List.isPrefixOf?_eq_some_iff_append_eq.2 (List.append_nil root)
  rw [moduleName?, hbelow]
  rfl

end ModuleMap

end RakuAtlas

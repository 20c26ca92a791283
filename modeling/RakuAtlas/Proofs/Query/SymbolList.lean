import RakuAtlas.Proofs.Index.History
import RakuAtlas.Query.Outline

/-!
# RakuAtlas.Proofs.Query.SymbolList — the symbols of the workspace, each once

A callable inside a scope is in the index under two keys, and a query may be the beginning of both.
The list of the symbols that a query finds compares what it shows of them, and leaves out what it
has shown before.

* `Index.hits`: what a query finds, with the keys, which is in a strict order of key, file and line
  (`Index.Image.pairwise_hits`). So each symbol comes first under the smallest of its keys
  (`Index.Image.isLeastKey`).
* `addNew_eq_take`: a list with a limit is the beginning of the list without.
* `ofSymbol_injective`: what is shown of two symbols of an index tells them apart.
* `workspaceSymbols_once`: the list has every symbol with a key that begins with the query once, in
  the order of the smallest such keys.
-/

namespace RakuAtlas

open Query (SymbolInfo)

namespace Index

/-! ## What a query finds -/

/-- What is found under the keys that begin with `start`, with the key. -/
def hits (index : Index) (start : String) : List (String × Symbol) :=
  ((index.keys.filter fun key => start.toList.isPrefixOf key.toList).mergeSort
    fun a b => a ≤ b).flatMap fun key => ((index.find key).mergeSort atOrBefore).map (key, ·)

theorem map_snd_hits (index : Index) (start : String) :
    (index.hits start).map Prod.snd = index.queryAll start := by
  simp only [hits, queryAll, List.map_flatMap, List.map_map]
  exact List.flatMap_congr fun key _ => List.map_id _

/-- The symbol is declared before another: in an earlier file, or in the same on an earlier
line. -/
def DeclaredBefore (a b : Symbol) : Prop :=
  a.file.index < b.file.index ∨ a.file = b.file ∧ a.line < b.line

/-- The order of what a query finds: by key, file and line. -/
def HitBefore (a b : String × Symbol) : Prop :=
  a.1 < b.1 ∨ a.1 = b.1 ∧ DeclaredBefore a.2 b.2

/-- A symbol has this key, which begins with `start`, and none that does is smaller. -/
def IsLeastKey (start : String) (s : Symbol) (key : String) : Prop :=
  isUnder key s ∧ start.toList <+: key.toList ∧
    ∀ other, isUnder other s → start.toList <+: other.toList → key ≤ other

section
variable {index : Index} {contents : Contents}

theorem Image.mem_hits (h : Image index contents) {start key : String} {s : Symbol} :
    (key, s) ∈ index.hits start ↔
      s ∈ contents s.file ∧ isUnder key s ∧ start.toList <+: key.toList := by
  have hkey : s ∈ index.find key → key ∈ index.keys := by
    intro hs
    rw [keys, mem_keys_iff h.consistent.wellKeyed]
    exact List.ne_nil_of_mem hs
  simp only [hits, List.mem_flatMap, List.mem_mergeSort, List.mem_filter, List.mem_map,
    List.isPrefixOf_iff_prefix, Prod.mk.injEq]
  constructor
  · rintro ⟨_, ⟨-, hprefix⟩, _, hs, rfl, rfl⟩
    exact ⟨(h.mem_find.1 hs).1, (h.mem_find.1 hs).2, hprefix⟩
  · rintro ⟨hs, hunder, hprefix⟩
    have hmem := h.mem_find.2 ⟨hs, hunder⟩
    exact ⟨key, ⟨hkey hmem, hprefix⟩, s, hmem, rfl, rfl⟩

/-- Under one key the symbols are in a strict order of file and line. -/
theorem Image.pairwise_sorted_find (h : Image index contents) (key : String) :
    ((index.find key).mergeSort atOrBefore).Pairwise DeclaredBefore := by
  -- file by file the lines are distinct, and so they are in any order
  have hgroups : (index.files.flatMap fun file => (contents file).filter (isUnder key)).Pairwise
      fun a b => ¬(a.file = b.file ∧ a.line = b.line) := by
    rw [List.pairwise_flatMap]
    constructor
    · intro file _
      refine ((h.pairwise_line file).filter _).imp ?_
      intro a b hlt heq
      omega
    · refine h.consistent.files_nodup.imp ?_
      rintro file file' hne a ha b hb ⟨heq, -⟩
      have hfile := h.file_eq file a (List.mem_filter.1 ha).1
      have hfile' := h.file_eq file' b (List.mem_filter.1 hb).1
      exact hne (hfile.symm.trans (heq.trans hfile'))
  have hperm := (List.mergeSort_perm (index.find key) atOrBefore).trans (h.find_perm key)
  have hapart := (hperm.pairwise_iff
    (R := fun a b : Symbol => ¬(a.file = b.file ∧ a.line = b.line))
    fun hab hba => hab ⟨hba.1.symm, hba.2.symm⟩).2 hgroups
  have hsorted := List.pairwise_mergeSort atOrBefore_trans atOrBefore_total (index.find key)
  refine (hsorted.and hapart).imp ?_
  rintro a b ⟨hle, hne⟩
  rw [atOrBefore_iff] at hle
  refine hle.imp_right fun ⟨hfile, hline⟩ => ⟨hfile, ?_⟩
  exact Nat.lt_of_le_of_ne hline fun heq => hne ⟨hfile, heq⟩

theorem Image.pairwise_hits (h : Image index contents) (start : String) :
    (index.hits start).Pairwise HitBefore := by
  have hkeys : ((index.keys.filter fun key => start.toList.isPrefixOf key.toList).mergeSort
      fun a b => a ≤ b).Pairwise fun a b : String => a < b := by
    have hsorted := @List.pairwise_mergeSort String (fun a b => a ≤ b)
      (fun a b c hab hbc =>
        decide_eq_true (String.le_trans (of_decide_eq_true hab) (of_decide_eq_true hbc)))
      (fun a b => by simpa using String.le_total a b)
      (index.keys.filter fun key => start.toList.isPrefixOf key.toList)
    have hnodup := (List.mergeSort_perm
      (index.keys.filter fun key => start.toList.isPrefixOf key.toList)
      fun a b => a ≤ b).nodup_iff.2 (h.consistent.wellKeyed.nodup.filter _)
    refine (hsorted.and hnodup).imp ?_
    rintro a b ⟨hle, hne⟩
    exact String.not_le.1 fun hba => hne (String.le_antisymm (of_decide_eq_true hle) hba)
  rw [hits, List.pairwise_flatMap]
  constructor
  · intro key _
    rw [List.pairwise_map]
    exact (h.pairwise_sorted_find key).imp fun hab => Or.inr ⟨rfl, hab⟩
  · refine hkeys.imp ?_
    intro key key' hlt a ha b hb
    obtain ⟨s, -, rfl⟩ := List.mem_map.1 ha
    obtain ⟨s', -, rfl⟩ := List.mem_map.1 hb
    exact Or.inl hlt

/-- Where a query finds a symbol first, that is under the smallest of its keys. -/
theorem Image.isLeastKey (h : Image index contents) {start key : String} {s : Symbol}
    (hfirst : Order.IsFirst (index.hits start) (key, s)) : IsLeastKey start s key := by
  obtain ⟨before, after, hcut, hnew⟩ := hfirst
  have hpairwise := h.pairwise_hits start
  have hmem : ∀ other, (other, s) ∈ index.hits start ↔ (other, s) ∈ before ++ (key, s) :: after := by
    intro other
    rw [hcut]
  obtain ⟨hs, hunder, hprefix⟩ := h.mem_hits.1 ((hmem key).2 (by simp))
  refine ⟨hunder, hprefix, ?_⟩
  intro other hother hstart
  obtain hbefore | hafter := List.mem_append.1 ((hmem other).1 (h.mem_hits.2 ⟨hs, hother, hstart⟩))
  · exact absurd (List.mem_map_of_mem hbefore) hnew
  · obtain heq | hafter := List.mem_cons.1 hafter
    · obtain ⟨rfl, -⟩ := Prod.mk.inj heq
      exact String.le_refl other
    · rw [hcut] at hpairwise
      have hlater := List.rel_of_pairwise_cons (List.pairwise_append.1 hpairwise).2.1 hafter
      obtain hlt | ⟨heq, -⟩ := hlater
      · exact String.not_lt.1 (String.lt_asymm hlt)
      · obtain rfl : key = other := heq
        exact String.le_refl key

end

/-- A symbol comes before another in the list for a query: by the smallest key that begins with
it, then by file and line. -/
def ListedBefore (start : String) (a b : Symbol) : Prop :=
  ∃ key key', IsLeastKey start a key ∧ IsLeastKey start b key' ∧ HitBefore (key, a) (key', b)

end Index

namespace Query

open Index (Image Contents IsLeastKey ListedBefore isUnder)

/-! ## Each symbol once -/

/-- Without a limit the list has everything once that was found and is to come. -/
theorem addNew_none (before : List SymbolInfo) (symbols : List Symbol) :
    addNew none before.eraseDups symbols =
      (before ++ symbols.map SymbolInfo.ofSymbol).eraseDups := by
  induction symbols generalizing before with
  | nil => simp [addNew]
  | cons s more ih =>
    rw [List.map_cons, List.append_cons before]
    by_cases hmet : SymbolInfo.ofSymbol s ∈ before
    · have hskip := Order.eraseDups_concat_of_mem hmet
      rw [← ih, hskip]
      simp [addNew, hmet]
    · have hnew := Order.eraseDups_concat_of_not_mem hmet
      rw [← ih, hnew]
      simp [addNew, hmet]

/-- With a limit it has the first of that. -/
theorem addNew_eq_take {limit : Nat} (before : List SymbolInfo) (symbols : List Symbol)
    (hbefore : before.eraseDups.length ≤ limit) :
    addNew (some limit) before.eraseDups symbols =
      (addNew none before.eraseDups symbols).take limit := by
  rw [addNew_none]
  induction symbols generalizing before with
  | nil => simp [addNew, List.take_of_length_le hbefore]
  | cons s more ih =>
    by_cases hfull : limit ≤ before.eraseDups.length
    · -- the list is as long as it may be, and what is found stays in front
      have hlength : limit = before.eraseDups.length := Nat.le_antisymm hfull hbefore
      rw [List.eraseDups_append, hlength, List.take_left]
      simp [addNew]
    · rw [List.map_cons, List.append_cons before]
      by_cases hmet : SymbolInfo.ofSymbol s ∈ before
      · have hskip := Order.eraseDups_concat_of_mem hmet
        rw [← ih _ (by rwa [hskip]), hskip]
        simp [addNew, hmet, hfull]
      · have hnew := Order.eraseDups_concat_of_not_mem hmet
        rw [← ih _ (by rw [hnew, List.length_append, List.length_singleton]; omega), hnew]
        simp [addNew, hmet, hfull]

theorem workspaceSymbols_none (index : Index) (start : String) :
    workspaceSymbols index start none =
      ((index.queryAll start).map SymbolInfo.ofSymbol).eraseDups :=
  addNew_none [] _

theorem workspaceSymbols_some (index : Index) (start : String) (limit : Nat) :
    workspaceSymbols index start (some limit) =
      (workspaceSymbols index start none).take limit :=
  addNew_eq_take [] _ (Nat.zero_le _)

/-- What is listed stands under a key of the index. -/
theorem exists_find_of_mem_workspaceSymbols {index : Index} {start : String} {limit : Option Nat}
    {info : SymbolInfo} (h : info ∈ workspaceSymbols index start limit) :
    ∃ key, ∃ s ∈ index.find key, SymbolInfo.ofSymbol s = info := by
  have hall : info ∈ workspaceSymbols index start none := by
    cases limit with
    | none => exact h
    | some n =>
      rw [workspaceSymbols_some] at h
      exact List.mem_of_mem_take h
  rw [workspaceSymbols_none, List.mem_eraseDups] at hall
  obtain ⟨s, hs, rfl⟩ := List.mem_map.1 hall
  obtain ⟨key, -, hfind⟩ := List.mem_flatMap.1 hs
  exact ⟨key, s, List.mem_mergeSort.1 hfind, rfl⟩

section
variable {index : Index} {contents : Contents}

/-- What is shown of a symbol has its file and its line, and these tell the symbols of the files
apart. -/
theorem ofSymbol_injective (h : Image index contents) {a b : Symbol} (ha : a ∈ contents a.file)
    (hb : b ∈ contents b.file) (heq : SymbolInfo.ofSymbol a = SymbolInfo.ofSymbol b) : a = b := by
  have hlocation := congrArg SymbolInfo.location heq
  have hname : a.name = b.name := congrArg SymbolInfo.name heq
  have hfile : a.file = b.file := congrArg Location.file hlocation
  have hline : a.line = b.line := congrArg (fun l : Location => l.range.start.line) hlocation
  have hfinda : a ∈ index.find a.name := h.mem_find.2 ⟨ha, by simp [isUnder]⟩
  have hfindb : b ∈ index.find a.name := h.mem_find.2 ⟨hb, by simp [isUnder, hname]⟩
  exact h.eq_of_file_line hfinda hfindb hfile hline

theorem workspaceSymbols_of_image (h : Image index contents) (start : String) :
    workspaceSymbols index start none =
        (index.queryAll start).eraseDups.map SymbolInfo.ofSymbol ∧
      (∀ s, s ∈ (index.queryAll start).eraseDups ↔
        s ∈ contents s.file ∧ ∃ key, isUnder key s ∧ start.toList <+: key.toList) ∧
      (index.queryAll start).eraseDups.Pairwise (ListedBefore start) := by
  have hmem : ∀ s, s ∈ index.queryAll start ↔
      s ∈ contents s.file ∧ ∃ key, isUnder key s ∧ start.toList <+: key.toList := by
    intro s
    rw [← index.map_snd_hits, List.mem_map]
    constructor
    · rintro ⟨⟨key, s⟩, hhit, rfl⟩
      obtain ⟨hs, hunder, hprefix⟩ := h.mem_hits.1 hhit
      exact ⟨hs, key, hunder, hprefix⟩
    · rintro ⟨hs, key, hunder, hprefix⟩
      exact ⟨(key, s), h.mem_hits.2 ⟨hs, hunder, hprefix⟩, rfl⟩
  refine ⟨?_, ?_, ?_⟩
  · rw [workspaceSymbols_none]
    refine Order.eraseDups_map fun a ha b hb => ?_
    exact ofSymbol_injective h ((hmem a).1 ha).1 ((hmem b).1 hb).1
  · intro s
    rw [List.mem_eraseDups]
    exact hmem s
  · rw [← index.map_snd_hits]
    refine (Order.pairwise_eraseDups_of_keyed (h.pairwise_hits start)).2.imp ?_
    rintro a b ⟨key, key', ha, hb, hbefore⟩
    exact ⟨key, key', h.isLeastKey ha, h.isLeastKey hb, hbefore⟩

end

/-- A list of the symbols of the workspace with a limit is the beginning of that without. The list
without a limit shows, for every history of the index, each symbol of the files with a key that
begins with the query, and no other. It shows them once, in the order of the smallest such key, then
of file and line, and what it shows of two of them is not the same. -/
theorem workspaceSymbols_once (history : List Index.Change) (start : String) :
    (∀ limit, workspaceSymbols (Index.run history) start (some limit) =
        (workspaceSymbols (Index.run history) start none).take limit) ∧
      (workspaceSymbols (Index.run history) start none).Nodup ∧
      ∃ listed : List Symbol, workspaceSymbols (Index.run history) start none =
          listed.map SymbolInfo.ofSymbol ∧
        (∀ s, s ∈ listed ↔ s ∈ Index.contentsOf history s.file ∧
          ∃ key, isUnder key s ∧ start.toList <+: key.toList) ∧
        listed.Pairwise (ListedBefore start) := by
  refine ⟨workspaceSymbols_some _ start, ?_, _,
    workspaceSymbols_of_image (Index.image_run history) start⟩
  rw [workspaceSymbols_none]
  exact Order.nodup_eraseDups _

end Query

end RakuAtlas

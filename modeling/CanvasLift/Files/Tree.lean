import CanvasLift.Files.Path

/-!
A file tree: the directories and regular files below a root, by their locations. `Tree.get?` is the
view in which the operations are described.
-/

namespace CanvasLift

abbrev Location := List Name

inductive Entry
  | directory
  | file (content : Bytes)
  deriving DecidableEq

/-- The entries of a tree other than its root, at most one at each location. -/
structure Tree where
  entries : List (Location × Entry)
  nodup : (entries.map Prod.fst).Nodup

namespace Tree

def empty : Tree := ⟨[], List.nodup_nil⟩

def get? (t : Tree) (l : Location) : Option Entry :=
  if l = [] then some .directory else t.entries.lookup l

def restrict (t : Tree) (keep : Location → Bool) : Tree :=
  ⟨t.entries.filter fun e ↦ keep e.1,
    t.nodup.sublist (List.Sublist.map Prod.fst List.filter_sublist)⟩

theorem not_mem_restrict (t : Tree) (l : Location) :
    l ∉ ((t.restrict (· ≠ l)).entries.map Prod.fst) := by
  simp [restrict]

def set (t : Tree) (l : Location) (e : Entry) : Tree :=
  ⟨(l, e) :: (t.restrict (· ≠ l)).entries,
    List.nodup_cons.2 ⟨t.not_mem_restrict l, (t.restrict (· ≠ l)).nodup⟩⟩

def remove (t : Tree) (l : Location) : Tree := t.restrict fun m ↦ !l.isPrefixOf m

def children (t : Tree) (l : Location) : List (Name × Entry) :=
  t.entries.filterMap fun (m, e) ↦
    if m ≠ [] ∧ m.dropLast = l then m.getLast?.map (·, e) else none

theorem lookup_filter_ne (es : List (Location × Entry)) {l m : Location} (h : m ≠ l) :
    (es.filter fun e ↦ decide (e.1 ≠ l)).lookup m = es.lookup m := by
  induction es with
  | nil => rfl
  | cons e es ih =>
    obtain ⟨k, v⟩ := e
    by_cases hk : k = l
    · subst hk
      have hm : (m == k) = false := by simp [h]
      rw [List.filter_cons_of_neg (by simp), List.lookup_cons, hm, ih]
    · rw [List.filter_cons_of_pos (by simp [hk]), List.lookup_cons, List.lookup_cons, ih]

theorem get?_set_self (t : Tree) {l : Location} (e : Entry) (h : l ≠ []) :
    (t.set l e).get? l = some e := by
  simp [get?, set, h]

theorem get?_set_of_ne (t : Tree) {l m : Location} (e : Entry) (h : m ≠ l) :
    (t.set l e).get? m = t.get? m := by
  have hm : (m == l) = false := by simp [h]
  simp only [get?, set, List.lookup_cons, hm]
  rw [restrict, lookup_filter_ne _ h]

end Tree

end CanvasLift

import CanvasLift.Files.Walk
import Mathlib.Data.List.Induction

/-!
The order of a walk. The main statement is that a walk gives the names of all files that it can enter
down to, each once, the files of a directory by their names before its subdirectories by theirs.
-/

namespace CanvasLift

namespace WideText

variable {c d : Symbol} {t u v : WideText}

theorem le_cons_self : le (c :: t) (c :: u) = le t u := by simp [le]

theorem le_cons_of_ne (h : c ≠ d) : le (c :: t) (d :: u) = true ↔ c.code < d.code := by
  simp [le, h]

theorem le_total (t u : WideText) : le t u = true ∨ le u t = true := by
  induction t generalizing u with
  | nil => exact .inl rfl
  | cons c t ih =>
    cases u with
    | nil => exact .inr rfl
    | cons d u =>
      by_cases h : c = d
      · subst h
        simpa only [le_cons_self] using ih u
      · have hne : c.code ≠ d.code := fun heq ↦ h (Symbol.code_injective heq)
        rw [le_cons_of_ne h, le_cons_of_ne (Ne.symm h)]
        omega

theorem le_antisymm (h : le t u = true) (h' : le u t = true) : t = u := by
  induction t generalizing u with
  | nil =>
    cases u with
    | nil => rfl
    | cons d u => cases h'
  | cons c t ih =>
    cases u with
    | nil => cases h
    | cons d u =>
      by_cases hc : c = d
      · subst hc
        rw [le_cons_self] at h h'
        rw [ih h h']
      · rw [le_cons_of_ne hc] at h
        rw [le_cons_of_ne (Ne.symm hc)] at h'
        omega

theorem le_trans (h : le t u = true) (h' : le u v = true) : le t v = true := by
  induction t generalizing u v with
  | nil => rfl
  | cons c t ih =>
    cases u with
    | nil => cases h
    | cons d u =>
      cases v with
      | nil => cases h'
      | cons e v =>
        by_cases hcd : c = d
        · subst hcd
          by_cases hce : c = e
          · subst hce
            rw [le_cons_self] at h h' ⊢
            exact ih h h'
          · rwa [le_cons_of_ne hce] at h' ⊢
        · rw [le_cons_of_ne hcd] at h
          by_cases hde : d = e
          · subst hde
            rwa [le_cons_of_ne hcd]
          · rw [le_cons_of_ne hde] at h'
            have hce : c ≠ e := by
              rintro rfl
              omega
            rw [le_cons_of_ne hce]
            omega

end WideText

namespace Tree

variable {x y : Name} {xs ys zs : List Name}

theorem walkLe_deeper (hxs : xs ≠ []) (hys : ys ≠ []) :
    walkLe (x :: xs) (y :: ys) = if x = y then walkLe xs ys else WideText.le x y := by
  cases xs with
  | nil => exact absurd rfl hxs
  | cons x' xs =>
    cases ys with
    | nil => exact absurd rfl hys
    | cons y' ys =>
      rw [walkLe]
      · exact fun h ↦ (nomatch h)
      · exact fun h ↦ (nomatch h)
      · exact fun h ↦ (nomatch h)

theorem walkLe_file_deeper (hys : ys ≠ []) : walkLe [x] (y :: ys) = true := by
  cases ys with
  | nil => exact absurd rfl hys
  | cons y' ys => rfl

theorem walkLe_deeper_file (hxs : xs ≠ []) : walkLe (x :: xs) [y] = false := by
  cases xs with
  | nil => exact absurd rfl hxs
  | cons x' xs => rfl

theorem walkLe_total (xs ys : List Name) : walkLe xs ys = true ∨ walkLe ys xs = true := by
  induction xs generalizing ys with
  | nil => exact .inl (by cases ys <;> rfl)
  | cons x xs ih =>
    cases ys with
    | nil => exact .inr rfl
    | cons y ys =>
      by_cases hxs : xs = []
      · subst hxs
        by_cases hys : ys = []
        · subst hys
          exact WideText.le_total x y
        · exact .inl (walkLe_file_deeper hys)
      · by_cases hys : ys = []
        · subst hys
          exact .inr (walkLe_file_deeper hxs)
        · rw [walkLe_deeper hxs hys, walkLe_deeper hys hxs]
          by_cases h : x = y
          · simpa only [h, if_true] using ih ys
          · simpa only [h, Ne.symm h, if_false] using WideText.le_total x y

theorem walkLe_trans (h : walkLe xs ys = true) (h' : walkLe ys zs = true) :
    walkLe xs zs = true := by
  induction xs generalizing ys zs with
  | nil => cases zs <;> rfl
  | cons x xs ih =>
    cases ys with
    | nil => cases h
    | cons y ys =>
      cases zs with
      | nil => cases h'
      | cons z zs =>
        by_cases hxs : xs = []
        · subst hxs
          by_cases hzs : zs = []
          · subst hzs
            by_cases hys : ys = []
            · subst hys
              exact WideText.le_trans h h'
            · rw [walkLe_deeper_file hys] at h'
              cases h'
          · exact walkLe_file_deeper hzs
        · by_cases hys : ys = []
          · subst hys
            rw [walkLe_deeper_file hxs] at h
            cases h
          · by_cases hzs : zs = []
            · subst hzs
              rw [walkLe_deeper_file hys] at h'
              cases h'
            · rw [walkLe_deeper hxs hys] at h
              rw [walkLe_deeper hys hzs] at h'
              rw [walkLe_deeper hxs hzs]
              by_cases hxy : x = y
              · subst hxy
                by_cases hxz : x = z
                · simp only [hxz, if_true] at h h' ⊢
                  exact ih h h'
                · simpa only [hxz, if_false] using h'
              · rw [if_neg hxy] at h
                by_cases hyz : y = z
                · subst hyz
                  rwa [if_neg hxy]
                · rw [if_neg hyz] at h'
                  have hxz : x ≠ z := by
                    rintro rfl
                    exact hxy (WideText.le_antisymm h h')
                  rw [if_neg hxz]
                  exact WideText.le_trans h h'

theorem walkLe_antisymm (h : walkLe xs ys = true) (h' : walkLe ys xs = true) : xs = ys := by
  induction xs generalizing ys with
  | nil =>
    cases ys with
    | nil => rfl
    | cons y ys => cases h'
  | cons x xs ih =>
    cases ys with
    | nil => cases h
    | cons y ys =>
      by_cases hxs : xs = []
      · subst hxs
        by_cases hys : ys = []
        · subst hys
          rw [WideText.le_antisymm h h']
        · rw [walkLe_deeper_file hys] at h'
          cases h'
      · by_cases hys : ys = []
        · subst hys
          rw [walkLe_deeper_file hxs] at h
          cases h
        · rw [walkLe_deeper hxs hys] at h
          rw [walkLe_deeper hys hxs] at h'
          by_cases hxy : x = y
          · subst hxy
            rw [if_pos rfl] at h h'
            rw [ih h h']
          · rw [if_neg hxy] at h
            rw [if_neg (Ne.symm hxy)] at h'
            exact absurd (WideText.le_antisymm h h') hxy

/-- The names to a file come before others in a walk: within one directory by the names of the files,
then all that is deeper, by the names of the subdirectories. -/
inductive Precedes : List Name → List Name → Prop
  | files (directory : List Name) {x y : Name} (h : WideText.le x y = true) (hne : x ≠ y) :
      Precedes (directory ++ [x]) (directory ++ [y])
  | fileFirst (directory : List Name) {x y : Name} {ys : List Name} (hys : ys ≠ []) :
      Precedes (directory ++ [x]) (directory ++ y :: ys)
  | directories (directory : List Name) {x y : Name} {xs ys : List Name} (hxs : xs ≠ [])
      (hys : ys ≠ []) (h : WideText.le x y = true) (hne : x ≠ y) :
      Precedes (directory ++ x :: xs) (directory ++ y :: ys)

theorem Precedes.cons (x : Name) (h : Precedes xs ys) : Precedes (x :: xs) (x :: ys) := by
  cases h with
  | files directory h hne => exact .files (x :: directory) h hne
  | fileFirst directory hys => exact .fileFirst (x :: directory) hys
  | directories directory hxs hys h hne => exact .directories (x :: directory) hxs hys h hne

theorem precedes_of_walkLe (h : walkLe xs ys = true) (hxs : xs ≠ []) (hne : xs ≠ ys) :
    Precedes xs ys := by
  induction xs generalizing ys with
  | nil => exact absurd rfl hxs
  | cons x xs ih =>
    cases ys with
    | nil => cases h
    | cons y ys =>
      by_cases hxs : xs = []
      · subst hxs
        by_cases hys : ys = []
        · subst hys
          exact .files [] h fun heq ↦ hne (by rw [heq])
        · exact .fileFirst [] hys
      · by_cases hys : ys = []
        · subst hys
          rw [walkLe_deeper_file hxs] at h
          cases h
        · rw [walkLe_deeper hxs hys] at h
          by_cases hxy : x = y
          · subst hxy
            rw [if_pos rfl] at h
            exact (ih h hxs fun heq ↦ hne (by rw [heq])).cons x
          · rw [if_neg hxy] at h
            exact .directories [] hxs hys h hxy

theorem mem_entries_iff {t : Tree} {l : Location} {e : Entry} (hl : l ≠ []) :
    (l, e) ∈ t.entries ↔ t.get? l = some e := by
  rw [get?, if_neg hl]
  obtain ⟨es, hnodup⟩ := t
  induction es with
  | nil => simp
  | cons first es ih =>
    obtain ⟨k, v⟩ := first
    rw [List.map_cons, List.nodup_cons] at hnodup
    rw [List.mem_cons, List.lookup_cons]
    by_cases hk : l = k
    · subst hk
      have habsent : (l, e) ∉ es := fun h ↦ hnodup.1 (List.mem_map.2 ⟨_, h, rfl⟩)
      simp [habsent, eq_comm]
    · have hkb : (l == k) = false := by simp [hk]
      simp [hkb, hk, ih hnodup.2]

theorem mem_walk_iff {t : Tree} {top : Location} {enters : Name → Bool} {names : List Name} :
    names ∈ t.walk top enters ↔ names ≠ [] ∧
      (∃ content, t.get? (top ++ names) = some (.file content)) ∧
      ∀ name ∈ names.dropLast, enters name = true := by
  rw [walk, List.mem_mergeSort, List.mem_filter, List.mem_filterMap, List.all_eq_true]
  constructor
  · rintro ⟨⟨⟨l, e⟩, hmem, hfile⟩, henters⟩
    cases e with
    | directory => cases hfile
    | file content =>
      dsimp only at hfile
      split at hfile
      · next hbelow =>
        obtain ⟨⟨names', rfl⟩, hlen⟩ := hbelow
        obtain rfl : names' = names := by simpa using hfile
        have hne : names' ≠ [] := by
          rintro rfl
          simp at hlen
        refine ⟨hne, ⟨content, (mem_entries_iff ?_).1 hmem⟩, henters⟩
        simp [hne]
      · cases hfile
  · rintro ⟨hne, ⟨content, hfile⟩, henters⟩
    refine ⟨⟨(top ++ names, .file content), (mem_entries_iff (by simp [hne])).2 hfile, ?_⟩, henters⟩
    simp [hne]

theorem nodup_walk (t : Tree) (top : Location) (enters : Name → Bool) :
    (t.walk top enters).Nodup := by
  have hne : t.entries.Pairwise fun e e' ↦ e.1 ≠ e'.1 := List.pairwise_map.1 t.nodup
  rw [walk, (List.mergeSort_perm _ _).nodup_iff]
  refine List.Pairwise.filter _ (List.Pairwise.filterMap _ ?_ hne)
  rintro ⟨l, e⟩ ⟨l', e'⟩ hll names h names' h' rfl
  cases e with
  | directory => cases h
  | file content =>
    cases e' with
    | directory => cases h'
    | file content' =>
      dsimp only at h h'
      split at h
      · next hbelow =>
        split at h'
        · next hbelow' =>
          obtain ⟨⟨rest, rfl⟩, -⟩ := hbelow
          obtain ⟨⟨rest', rfl⟩, -⟩ := hbelow'
          simp only [List.drop_left, Option.some.injEq] at h h'
          exact hll (by rw [h, h'])
        · cases h'
      · cases h

theorem pairwise_walkLe_walk (t : Tree) (top : Location) (enters : Name → Bool) :
    (t.walk top enters).Pairwise fun xs ys ↦ walkLe xs ys = true := by
  have htrans : ∀ xs ys zs : List Name, walkLe xs ys = true → walkLe ys zs = true →
      walkLe xs zs = true := fun _ _ _ ↦ walkLe_trans
  have htotal (xs ys : List Name) := Bool.or_eq_true_iff.2 (walkLe_total xs ys)
  exact List.pairwise_mergeSort htrans htotal _

theorem pairwise_precedes_walk (t : Tree) (top : Location) (enters : Name → Bool) :
    (t.walk top enters).Pairwise Precedes := by
  refine ((t.pairwise_walkLe_walk top enters).and (t.nodup_walk top enters)).imp_of_mem ?_
  intro xs ys hxs hys h
  exact precedes_of_walkLe h.1 (mem_walk_iff.1 hxs).1 h.2

theorem walk_congr {t u : Tree} {top : Location} {enters : Name → Bool}
    (h : ∀ names, names ∈ u.walk top enters ↔ names ∈ t.walk top enters) :
    u.walk top enters = t.walk top enters := by
  have hperm : (u.walk top enters).Perm (t.walk top enters) :=
    (List.perm_ext_iff_of_nodup (nodup_walk _ _ _) (nodup_walk _ _ _)).2 h
  exact hperm.eq_of_pairwise (fun _ _ _ _ ↦ walkLe_antisymm) (pairwise_walkLe_walk _ _ _)
    (pairwise_walkLe_walk _ _ _)

theorem child_eq_some_iff {d m : Location} {e e' : Entry} {name : Name} :
    (if m ≠ [] ∧ m.dropLast = d then m.getLast?.map (·, e) else none) = some (name, e') ↔
      m = d ++ [name] ∧ e = e' := by
  induction m using List.reverseRecOn with
  | nil => simp
  | append_singleton names last =>
    simp only [ne_eq, List.append_eq_nil_iff, List.cons_ne_nil, and_false, not_false_eq_true,
      List.dropLast_concat, true_and, List.getLast?_concat, Option.map_some,
      List.append_singleton_inj]
    split
    · next h => simp [h]
    · next h => simp [h]

theorem mem_children_iff {t : Tree} {d : Location} {name : Name} {e : Entry} :
    (name, e) ∈ t.children d ↔ t.get? (d ++ [name]) = some e := by
  rw [← mem_entries_iff (by simp), children, List.mem_filterMap]
  constructor
  · rintro ⟨⟨m, e'⟩, hmem, hchild⟩
    obtain ⟨rfl, rfl⟩ := child_eq_some_iff.1 hchild
    exact hmem
  · exact fun h ↦ ⟨_, h, child_eq_some_iff.2 ⟨rfl, rfl⟩⟩

theorem mem_namesIn_iff {t : Tree} {d : Location} {name : Name} :
    name ∈ t.namesIn d ↔ ∃ e, t.get? (d ++ [name]) = some e := by
  rw [namesIn, List.mem_mergeSort, List.mem_map]
  constructor
  · rintro ⟨⟨name, e⟩, hmem, rfl⟩
    exact ⟨e, mem_children_iff.1 hmem⟩
  · rintro ⟨e, he⟩
    exact ⟨_, mem_children_iff.2 he, rfl⟩

theorem nodup_namesIn (t : Tree) (d : Location) : (t.namesIn d).Nodup := by
  have hne : t.entries.Pairwise fun e e' ↦ e.1 ≠ e'.1 := List.pairwise_map.1 t.nodup
  rw [namesIn, (List.mergeSort_perm _ _).nodup_iff, List.Nodup, List.pairwise_map]
  refine List.Pairwise.filterMap _ ?_ hne
  intro e e' hee child hchild child' hchild' heq
  apply hee
  rw [(child_eq_some_iff.1 hchild).1, (child_eq_some_iff.1 hchild').1, heq]

theorem pairwise_namesIn (t : Tree) (d : Location) :
    (t.namesIn d).Pairwise fun name other ↦ WideText.le name other = true ∧ name ≠ other := by
  have htotal (x y : Name) := Bool.or_eq_true_iff.2 (WideText.le_total x y)
  have htrans : ∀ x y z : Name, WideText.le x y = true → WideText.le y z = true →
      WideText.le x z = true := fun _ _ _ ↦ WideText.le_trans
  exact (List.pairwise_mergeSort htrans htotal _).and (t.nodup_namesIn d)

end Tree

end CanvasLift

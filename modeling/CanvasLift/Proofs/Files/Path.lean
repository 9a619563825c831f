import CanvasLift.Files.Host

namespace CanvasLift

namespace Path

variable {names : List Name} {base p : Path}

theorem foldl_collapse (done names : List Name) (hdone : up ∉ done) :
    up ∉ names.foldl (fun done name ↦ if name = up then done.dropLast else done ++ [name]) done := by
  induction names generalizing done with
  | nil => exact hdone
  | cons name names ih =>
    rw [List.foldl_cons]
    apply ih
    split
    · exact fun h ↦ hdone (List.dropLast_subset _ h)
    · next hname => simp [hdone, Ne.symm hname]

theorem up_not_mem_collapse (names : List Name) : up ∉ collapse names :=
  foldl_collapse [] names List.not_mem_nil

theorem foldl_collapse_of_up_not_mem (done : List Name) (h : up ∉ names) :
    names.foldl (fun done name ↦ if name = up then done.dropLast else done ++ [name]) done =
      done ++ names := by
  induction names generalizing done with
  | nil => rw [List.foldl_nil, List.append_nil]
  | cons name names ih =>
    obtain ⟨hname, hnames⟩ := not_or.1 (mt List.mem_cons.2 h)
    rw [List.foldl_cons, if_neg (Ne.symm hname), ih _ hnames, List.append_assoc]
    rfl

theorem collapse_of_up_not_mem (h : up ∉ names) : collapse names = names :=
  foldl_collapse_of_up_not_mem [] h

theorem up_not_mem_resolve : up ∉ (resolve base p).names := up_not_mem_collapse _

theorem join_of_isAbsolute (h : p.isAbsolute = true) : base.join p = p := if_pos h

theorem resolve_of_up_not_mem (h : up ∉ names) : resolve base ⟨.root, names⟩ = ⟨.root, names⟩ := by
  rw [resolve, join_of_isAbsolute rfl, collapse_of_up_not_mem h]

end Path

end CanvasLift

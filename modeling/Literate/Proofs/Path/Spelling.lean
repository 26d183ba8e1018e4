import Literate.Proofs.Path.Local

/-! What a path spells. Cleaning a path changes nothing in the place that it spells, and the last
component of a path leads on from the place of its directory. -/

namespace Literate.Path

section Climb

variable {rooted : Bool} {stack base : List Text} {part : Text}

/-- What lies on the stack of components spells the place that the components lead to. -/
theorem foldl_climb_push (h : Reduced rooted stack.reverse) (hbase : rooted = true → base = []) :
    (pushComponent rooted stack part).reverse.foldl climb base =
      climb (stack.reverse.foldl climb base) part := by
  unfold pushComponent
  by_cases hstay : part = [] ∨ part = ("." : Text)
  · rw [if_pos hstay, climb, if_pos hstay]
  by_cases hup : part = (".." : Text)
  · rw [if_neg hstay, if_pos hup]
    cases stack with
    | nil =>
      cases rooted with
      | true => simp [climb, hbase rfl, hup]
      | false => simp
    | cons top rest =>
      dsimp only
      by_cases htop : top = (".." : Text)
      · rw [if_pos htop, List.reverse_cons, List.foldl_append]
        rfl
      · -- the climb takes back the name on top of the stack
        have hname : IsName top := by
          obtain ⟨n, names, hshape, hnames, -⟩ := h
          have hmem : top ∈ climbs n ++ names := by rw [← hshape]; simp
          rcases List.mem_append.1 hmem with hmem | hmem
          · exact absurd (List.eq_of_mem_replicate hmem) htop
          · exact hnames top hmem
        rw [if_neg htop, List.reverse_cons, List.foldl_append, List.foldl_cons, List.foldl_nil,
          climb_name hname, climb, if_neg hstay, if_pos hup, List.dropLast_concat]
  · rw [if_neg hstay, if_neg hup, List.reverse_cons, List.foldl_append]
    rfl

theorem foldl_climb_foldl_push (h : Reduced rooted stack.reverse)
    (hbase : rooted = true → base = []) {parts : List Text} (hparts : ∀ part ∈ parts, slash ∉ part) :
    (parts.foldl (pushComponent rooted) stack).reverse.foldl climb base =
      parts.foldl climb (stack.reverse.foldl climb base) := by
  induction parts generalizing stack with
  | nil => rfl
  | cons part parts ih =>
    rw [List.foldl_cons, List.foldl_cons,
      ih (reduced_push h (hparts part (by simp))) fun p hp => hparts p (by simp [hp]),
      foldl_climb_push h hbase]

theorem foldl_climb_components (path : Text) (hbase : isAbsolute path = true → base = []) :
    (components path).foldl climb base = (Text.split slash path).foldl climb base := by
  have hnone : Reduced (isAbsolute path) ([] : List Text).reverse :=
    ⟨0, [], rfl, by simp, by simp⟩
  exact foldl_climb_foldl_push hnone hbase fun _ hp => Text.not_mem_of_mem_split hp

end Climb

theorem foldl_climb_spell {rooted : Bool} {parts : List Text} (h : Reduced rooted parts)
    (base : List Text) :
    (Text.split slash (spell rooted parts)).foldl climb base = parts.foldl climb base := by
  by_cases hne : parts = []
  · subst hne
    cases rooted <;> rfl
  · rw [split_spell h hne, List.foldl_append]
    cases rooted <;> rfl

/-- Reduced components spell a place that names go down to after the climbs. -/
theorem spelled_spell {rooted : Bool} {ups : Nat} {names : List Text}
    (hnames : ∀ name ∈ names, IsName name) (hrooted : rooted = true → ups = 0)
    (start : List Text) :
    spelled start (spell rooted (climbs ups ++ names)) = source rooted ups start ++ names := by
  have hreduced : Reduced rooted (climbs ups ++ names) := ⟨ups, names, rfl, hnames, hrooted⟩
  rw [spelled, isAbsolute_spell hreduced, foldl_climb_spell hreduced, List.foldl_append,
    foldl_climb_names hnames, source]

theorem spelled_clean (start : List Text) (path : Text) :
    spelled start (clean path) = spelled start path := by
  rw [spelled, isAbsolute_clean, clean_eq_spell, foldl_climb_spell (reduced_components path),
    foldl_climb_components path fun h => if_pos h, spelled]

section CutLast

variable (path : Text)

/-- A path is cut behind its last slash. -/
theorem cutLast_spec : (cutLast path).1 ++ (cutLast path).2 = path ∧ Ends (cutLast path).1 ∧
    slash ∉ (cutLast path).2 := by
  obtain ⟨before, last, rfl, hends, hlast⟩ : ∃ before last, path = before ++ last ∧ Ends before ∧
      slash ∉ last := by
    induction path using List.reverseRecOn with
    | nil => exact ⟨[], [], rfl, by simp [Ends], by simp⟩
    | append_singleton path b ih =>
      by_cases hb : b = slash
      · exact ⟨path ++ [b], [], by simp, by simp [Ends, hb], by simp⟩
      · obtain ⟨before, last, rfl, hends, hlast⟩ := ih
        exact ⟨before, last ++ [b], by simp, hends, by simp [hlast, Ne.symm hb]⟩
  rw [cutLast_append hends hlast]
  exact ⟨rfl, hends, hlast⟩

/-- A path has its last component behind those that come before its last slash. -/
theorem split_cutLast : ∃ parts, Text.split slash path = parts ++ [(cutLast path).2] ∧
    Text.split slash (cutLast path).1 = parts ++ [[]] ∧
    isAbsolute (cutLast path).1 = isAbsolute path := by
  obtain ⟨hback, hends, hlast⟩ := cutLast_spec path
  generalize (cutLast path).1 = before at *
  generalize (cutLast path).2 = last at *
  subst hback
  cases before using List.reverseRecOn with
  | nil =>
    refine ⟨[], Text.split_of_not_mem hlast, rfl, ?_⟩
    cases last with
    | nil => rfl
    | cons b last =>
      have hb : b ≠ slash := fun hb => hlast (by simp [hb])
      simp [isAbsolute, hb]
  | append_singleton dir b =>
    obtain rfl : b = slash := hends b (by simp)
    refine ⟨Text.split slash dir, ?_, Text.split_append_cons_sep dir [], ?_⟩
    · rw [List.append_assoc, List.singleton_append, Text.split_append_cons_sep,
        Text.split_of_not_mem hlast]
    · cases dir <;> rfl

/-- The last component of a path leads on from the place of its directory. -/
theorem spelled_eq_climb (start : List Text) :
    spelled start path = climb (spelled start (directory path)) (cutLast path).2 := by
  obtain ⟨parts, hsplit, hdir, habsolute⟩ := split_cutLast path
  have hstay : ∀ place, climb place [] = place := fun place => if_pos (.inl rfl)
  rw [directory, spelled_clean, spelled, spelled, hsplit, hdir, habsolute, List.foldl_append,
    List.foldl_append, List.foldl_cons, List.foldl_nil, List.foldl_cons, List.foldl_nil, hstay]

end CutLast

/-- The last name of a path is the last of its components when only slashes come behind it. -/
theorem components_concat {path name : Text} {before after : List Text}
    (hsplit : Text.split slash path = before ++ name :: after) (hname : ¬Steers name)
    (hempty : ∀ part ∈ after, part = []) : ∃ parts, components path = parts ++ [name] := by
  have hstay : ∀ stack, after.foldl (pushComponent (isAbsolute path)) stack = stack := by
    clear hsplit
    intro stack
    induction after with
    | nil => rfl
    | cons part after ih =>
      have hskip : pushComponent (isAbsolute path) stack part = stack :=
        if_pos (.inl (hempty part (by simp)))
      rw [List.foldl_cons, hskip]
      exact ih fun p hp => hempty p (by simp [hp])
  have hpush : ∀ stack, pushComponent (isAbsolute path) stack name = name :: stack := by
    simp only [Steers, not_or] at hname
    intro stack
    simp [pushComponent, hname]
  rw [components, hsplit, List.foldl_append, List.foldl_cons, hstay, hpush, List.reverse_cons]
  exact ⟨_, rfl⟩

theorem not_bare_clean {path name : Text} {before after : List Text}
    (hsplit : Text.split slash path = before ++ name :: after) (hname : ¬Steers name)
    (hempty : ∀ part ∈ after, part = []) : ¬Bare (clean path) := by
  obtain ⟨parts, hparts⟩ := components_concat hsplit hname hempty
  intro hbare
  refine hname (hbare.steers name ?_)
  rw [clean_eq_spell, split_spell (reduced_components path) (by simp [hparts]), hparts]
  simp

end Literate.Path

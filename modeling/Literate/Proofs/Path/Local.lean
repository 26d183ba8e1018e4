import Literate.Proofs.Path.Leaf

/-! Local paths. A path that is local does not climb above where it starts, so joined to a directory
it only goes on from the components of the directory. -/

namespace Literate.Path

section Spell

variable {rooted : Bool} {parts : List Text}

theorem Reduced.no_slash (h : Reduced rooted parts) : ∀ part ∈ parts, part ≠ [] ∧ slash ∉ part := by
  obtain ⟨n, names, rfl, hnames, -⟩ := h
  intro part hpart
  rcases List.mem_append.1 hpart with hpart | hpart
  · rw [List.eq_of_mem_replicate hpart]
    decide
  · exact ⟨(hnames part hpart).ne_nil, (hnames part hpart).no_slash⟩

theorem isAbsolute_spell (h : Reduced rooted parts) : isAbsolute (spell rooted parts) = rooted := by
  cases parts using List.reverseRecOn with
  | nil => cases rooted <;> rfl
  | append_singleton parts last _ =>
    rw [spell_concat, List.append_assoc]
    refine isAbsolute_root (fun part hpart => h.no_slash part (by simp [hpart])) fun hhead => ?_
    exact (h.no_slash last (by simp)).2 (List.mem_of_head? hhead)

theorem split_spell (h : Reduced rooted parts) (hne : parts ≠ []) :
    Text.split slash (spell rooted parts) = (if rooted then [[]] else []) ++ parts := by
  rw [spell, if_neg hne, split_root, split_join hne fun part hpart => (h.no_slash part hpart).2]

theorem components_spell (h : Reduced rooted parts) : components (spell rooted parts) = parts := by
  by_cases hne : parts = []
  · subst hne
    cases rooted <;> decide
  · rw [components, isAbsolute_spell h, split_spell h hne, List.foldl_append]
    have hfirst : (if rooted then [[]] else []).foldl (pushComponent rooted) [] = [] := by
      cases rooted <;> rfl
    rw [hfirst, foldl_push_reduced h, List.reverse_reverse]

theorem components_clean (path : Text) : components (clean path) = components path := by
  rw [clean_eq_spell, components_spell (reduced_components path)]

theorem isAbsolute_clean (path : Text) : isAbsolute (clean path) = isAbsolute path := by
  rw [clean_eq_spell, isAbsolute_spell (reduced_components path)]

end Spell

section Push

variable {stack : List Text}

theorem climb_mem_push (h : (".." : Text) ∈ stack) (part : Text) :
    (".." : Text) ∈ pushComponent false stack part := by
  unfold pushComponent
  split
  · exact h
  · split
    · cases stack with
      | nil => cases h
      | cons top rest =>
        dsimp only
        split
        · exact List.mem_cons_of_mem _ h
        next htop => exact (List.mem_cons.1 h).resolve_left (Ne.symm htop)
    · exact List.mem_cons_of_mem _ h

theorem climb_mem_foldl_push (h : (".." : Text) ∈ stack) (parts : List Text) :
    (".." : Text) ∈ parts.foldl (pushComponent false) stack := by
  induction parts generalizing stack with
  | nil => exact h
  | cons part parts ih => exact ih (climb_mem_push h part)

/-- Without a climb that is left over, nothing below the stack is touched. -/
theorem push_append {rooted : Bool} {base : List Text} {part : Text}
    (h : (".." : Text) ∉ pushComponent false stack part) :
    pushComponent rooted (stack ++ base) part = pushComponent false stack part ++ base := by
  unfold pushComponent at h ⊢
  split
  · rfl
  next hstay =>
    rw [if_neg hstay] at h
    split
    next hup =>
      rw [if_pos hup] at h
      cases stack with
      | nil => simp [hup] at h
      | cons top rest =>
        dsimp only at h
        by_cases htop : top = (".." : Text)
        · simp [htop] at h
        · simp only [List.cons_append, if_neg htop]
    · rfl

theorem foldl_push_append (rooted : Bool) (base : List Text) (parts : List Text)
    (h : (".." : Text) ∉ parts.foldl (pushComponent false) stack) :
    parts.foldl (pushComponent rooted) (stack ++ base) =
      parts.foldl (pushComponent false) stack ++ base := by
  induction parts generalizing stack with
  | nil => rfl
  | cons part parts ih =>
    have hpart : (".." : Text) ∉ pushComponent false stack part :=
      fun hmem => h (climb_mem_foldl_push hmem parts)
    rw [List.foldl_cons, List.foldl_cons, push_append hpart]
    exact ih h

end Push

section Local

variable {path : Text}

/-- A path is not local exactly if it is empty, absolute, or begins with a climb when it is clean. -/
theorem isLocal_eq_false : isLocal path = false ↔
    path = [] ∨ isAbsolute path = true ∨
      (Text.split slash (clean path)).head? = some (".." : Text) := by
  by_cases hnil : path = []
  · simp [isLocal, hnil]
  by_cases habs : isAbsolute path = true
  · simp [isLocal, habs]
  have hhead : (components path).head? = some (".." : Text) ↔
      (Text.split slash (clean path)).head? = some (".." : Text) := by
    rw [clean_eq_spell]
    have hreduced := reduced_components path
    rw [Bool.not_eq_true] at habs
    rw [habs] at hreduced ⊢
    by_cases hne : components path = []
    · rw [hne]
      decide
    · rw [split_spell hreduced hne]
      rfl
  simp [isLocal, hnil, habs, hhead]

theorem isLocal_iff : isLocal path = true ↔
    isAbsolute path = false ∧ path ≠ [] ∧ (components path).head? ≠ some (".." : Text) := by
  simp [isLocal, and_assoc]

theorem isName_of_isLocal (h : isLocal path = true) : ∀ part ∈ components path, IsName part := by
  obtain ⟨-, -, hhead⟩ := isLocal_iff.1 h
  obtain ⟨n, names, hshape, hnames, -⟩ := reduced_components path
  obtain rfl : n = 0 := by
    cases n with
    | zero => rfl
    | succ n => simp [hshape, climbs, List.replicate_succ] at hhead
  rw [hshape]
  exact hnames

theorem components_of_isName (h : IsName path) : components path = [path] := by
  have habs : isAbsolute path = false := by
    obtain ⟨b, rest, rfl⟩ := List.exists_cons_of_ne_nil h.ne_nil
    have hb : b ≠ slash := fun he => h.no_slash (by simp [he])
    simpa [isAbsolute] using hb
  simp [components, habs, Text.split_of_not_mem h.no_slash, pushComponent, h.ne_nil, h.ne_dot,
    h.ne_climb]

theorem isLocal_of_isName (h : IsName path) : isLocal path = true := by
  refine isLocal_iff.2 ⟨?_, h.ne_nil, by simpa [components_of_isName h] using h.ne_climb⟩
  cases habs : isAbsolute path with
  | false => rfl
  | true =>
    exact absurd (List.mem_of_head? (by simpa [isAbsolute] using habs)) h.no_slash

/-- A path goes down from a directory. -/
structure Below (dir path : Text) : Prop where
  rooted : isAbsolute path = isAbsolute dir
  parts : ∃ rest, components path = components dir ++ rest ∧ (".." : Text) ∉ rest

theorem components_join (dir : Text) (h : isLocal path = true) :
    components (join dir path) = components dir ++ components path ∧
      isAbsolute (join dir path) = isAbsolute dir := by
  obtain ⟨habs, hne, -⟩ := isLocal_iff.1 h
  unfold join
  by_cases hdir : dir = []
  · rw [if_pos hdir, if_neg hne, components_clean, isAbsolute_clean, habs, hdir]
    exact ⟨rfl, rfl⟩
  · have htext : dir ++ "/" ++ path = dir ++ slash :: path := List.append_assoc dir [slash] path
    have hrooted : isAbsolute (dir ++ slash :: path) = isAbsolute dir := by
      obtain ⟨b, rest, rfl⟩ := List.exists_cons_of_ne_nil hdir
      rfl
    have hclimb : (".." : Text) ∉ (Text.split slash path).foldl (pushComponent false) [] := by
      intro hmem
      refine (isName_of_isLocal h _ ?_).ne_climb rfl
      rw [components, habs]
      exact List.mem_reverse.2 hmem
    rw [if_neg hdir, components_clean, isAbsolute_clean, htext, hrooted]
    refine ⟨?_, rfl⟩
    rw [components, hrooted, Text.split_append_cons_sep, List.foldl_append]
    have hpush := foldl_push_append (isAbsolute dir)
      ((Text.split slash dir).foldl (pushComponent (isAbsolute dir)) []) _ hclimb
    rw [List.nil_append] at hpush
    rw [hpush, List.reverse_append, components, components, habs]

theorem below_join {dir : Text} (h : isLocal path = true) : Below dir (join dir path) := by
  obtain ⟨hparts, hrooted⟩ := components_join dir h
  exact ⟨hrooted, _, hparts, fun hmem => (isName_of_isLocal h _ hmem).ne_climb rfl⟩

theorem join_eq_spell {dir : Text} (h : isLocal path = true) :
    join dir path = spell (isAbsolute dir) (components dir ++ components path) := by
  obtain ⟨-, hne, -⟩ := isLocal_iff.1 h
  obtain ⟨hparts, hrooted⟩ := components_join dir h
  obtain ⟨whole, hwhole⟩ : ∃ whole, join dir path = clean whole := by
    unfold join
    split
    · exact ⟨path, rfl⟩
    · exact ⟨_, rfl⟩
  rw [hwhole, components_clean] at hparts
  rw [hwhole, isAbsolute_clean] at hrooted
  rw [hwhole, clean_eq_spell, hparts, hrooted]

theorem base_join (dir : Text) {name : Text} (h : IsName name) :
    base (join dir name) = name ∧ directory (join dir name) = clean dir := by
  obtain ⟨n, names, hshape, hnames, hrooted⟩ := reduced_components dir
  let l : Leaf := ⟨isAbsolute dir, n, names, name, hrooted, by
    intro part hpart
    rcases List.mem_append.1 hpart with hpart | hpart
    · exact hnames part hpart
    · rwa [List.mem_singleton.1 hpart]⟩
  have htext : join dir name = l.text := by
    rw [join_eq_spell (isLocal_of_isName h), components_of_isName h, spell_concat, hshape]
    rfl
  refine ⟨by rw [htext, l.base_text], ?_⟩
  rw [htext, l.directory_text, clean_eq_spell dir, hshape]
  rfl

end Local

end Literate.Path

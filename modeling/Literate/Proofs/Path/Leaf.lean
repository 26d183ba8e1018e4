import Literate.FileTree.Replace
import Literate.Proofs.FileTree.Places

/-! Clean paths. A path that has been cleaned only climbs at its beginning; then it either ends, and
leads to a directory that is there in any case, or goes down through names to a last one. -/

namespace Literate

theorem Text.not_mem_of_mem_split {sep : UInt8} {t part : Text} (h : part ∈ Text.split sep t) :
    sep ∉ part := by
  induction t generalizing part with
  | nil => simp_all [Text.split]
  | cons b t ih =>
    obtain ⟨head, rest, hsplit⟩ := List.exists_cons_of_ne_nil (Text.split_ne_nil sep t)
    rw [hsplit] at ih
    by_cases hb : b = sep
    · simp only [Text.split, hb, if_true, hsplit, List.mem_cons] at h
      rcases h with rfl | h
      · simp
      · exact ih (by simpa using h)
    · simp only [Text.split, hb, if_false, hsplit, List.mem_cons] at h
      rcases h with rfl | h
      · have hhead : sep ∉ head := ih (by simp)
        simp [Ne.symm hb, hhead]
      · exact ih (by simp [h])

namespace Path

/-- A component that leads to no new name. -/
def Steers (part : Text) : Prop := part = [] ∨ part = ("." : Text) ∨ part = (".." : Text)

theorem isName_iff {part : Text} : IsName part ↔ ¬Steers part ∧ slash ∉ part := by
  constructor
  · rintro ⟨h₁, h₂, h₃, h₄⟩
    exact ⟨by simp [Steers, h₁, h₂, h₃], h₄⟩
  · rintro ⟨h, h₄⟩
    simp only [Steers, not_or] at h
    exact ⟨h.1, h.2.1, h.2.2, h₄⟩

/-- The slash that an absolute path begins with. -/
def root (rooted : Bool) : Text := if rooted then [slash] else []

/-- Components with a slash behind each. -/
def lane (parts : List Text) : Text := parts.flatMap (· ++ [slash])

@[simp] theorem lane_nil : lane [] = [] := rfl

@[simp] theorem lane_cons (part : Text) (parts : List Text) :
    lane (part :: parts) = part ++ slash :: lane parts := by
  simp [lane]

@[simp] theorem lane_append (as bs : List Text) : lane (as ++ bs) = lane as ++ lane bs := by
  simp [lane]

def climbs (n : Nat) : List Text := List.replicate n ".."

theorem join_concat (parts : List Text) (last : Text) :
    Text.join "/" (parts ++ [last]) = lane parts ++ last := by
  have hslash : Text.ofString "/" = [slash] := by decide
  induction parts with
  | nil => simp [Text.join]
  | cons part parts ih =>
    obtain ⟨next, rest, hrest⟩ := List.exists_cons_of_ne_nil
      (List.append_ne_nil_of_right_ne_nil parts (List.cons_ne_nil last []))
    rw [List.cons_append, hrest, Text.join, List.intercalate_cons_cons, ← hrest, hslash, ← hslash]
    rw [Text.join] at ih
    rw [ih, hslash]
    simp

theorem split_lane {parts : List Text} (h : ∀ part ∈ parts, slash ∉ part) (t : Text) :
    Text.split slash (lane parts ++ t) = parts ++ Text.split slash t := by
  induction parts with
  | nil => rfl
  | cons part parts ih =>
    rw [lane_cons, List.append_assoc, List.cons_append, Text.split_append_sep (h part (by simp)),
      ih fun p hp => h p (by simp [hp]), List.cons_append]

theorem split_root (rooted : Bool) (t : Text) :
    Text.split slash (root rooted ++ t) = (if rooted then [[]] else []) ++ Text.split slash t := by
  cases rooted with
  | true => exact Text.split_sep t
  | false => rfl

/-- A path that ends in a name and only climbs at its beginning. -/
structure Leaf where
  rooted : Bool
  ups : Nat
  dirs : List Text
  name : Text
  grounded : rooted = true → ups = 0
  names : ∀ part ∈ dirs ++ [name], IsName part

namespace Leaf

/-- The components before the last. -/
def parts (l : Leaf) : List Text := climbs l.ups ++ l.dirs

/-- The path up to its last slash. -/
def stem (l : Leaf) : Text := root l.rooted ++ lane l.parts

def text (l : Leaf) : Text := l.stem ++ l.name

variable (l : Leaf)

theorem name_isName : IsName l.name := l.names l.name (by simp)

theorem exists_ne_nil : ∃ part ∈ [l.name], part ≠ [] := ⟨l.name, by simp, l.name_isName.ne_nil⟩

theorem dirs_isName : ∀ part ∈ l.dirs, IsName part := fun part hp => l.names part (by simp [hp])

theorem slash_not_mem_parts : ∀ part ∈ l.parts, slash ∉ part := by
  intro part hp
  rcases List.mem_append.mp hp with hp | hp
  · rw [List.eq_of_mem_replicate hp]
    decide
  · exact (l.dirs_isName part hp).no_slash

theorem split_text : Text.split slash l.text =
    (if l.rooted then [[]] else []) ++ (l.parts ++ [l.name]) := by
  rw [text, stem, List.append_assoc, split_root, split_lane l.slash_not_mem_parts,
    Text.split_of_not_mem l.name_isName.no_slash]

end Leaf

theorem isAbsolute_root {rooted : Bool} {parts : List Text} {t : Text}
    (hparts : ∀ part ∈ parts, part ≠ [] ∧ slash ∉ part) (ht : t.head? ≠ some slash) :
    isAbsolute (root rooted ++ (lane parts ++ t)) = rooted := by
  cases rooted with
  | true => rfl
  | false =>
    cases parts with
    | nil => simpa [isAbsolute, root] using ht
    | cons part parts =>
      obtain ⟨hne, hslash⟩ := hparts part (by simp)
      obtain ⟨b, part, rfl⟩ := List.exists_cons_of_ne_nil hne
      have hb : b ≠ slash := fun he => hslash (by simp [he])
      simpa [isAbsolute, root] using hb

section Clean

/-- Components as they are left on the stack: climbs below names. -/
structure Reduced (rooted : Bool) (parts : List Text) : Prop where
  shape : ∃ n names, parts = climbs n ++ names ∧ (∀ part ∈ names, IsName part) ∧
    (rooted = true → n = 0)

theorem reduced_push {rooted : Bool} {stack : List Text} (h : Reduced rooted stack.reverse)
    {part : Text} (hpart : slash ∉ part) :
    Reduced rooted (pushComponent rooted stack part).reverse := by
  obtain ⟨n, names, hshape, hnames, hrooted⟩ := h
  unfold pushComponent
  split
  · exact ⟨n, names, hshape, hnames, hrooted⟩
  next hstay =>
    split
    next hup =>
      cases stack with
      | nil =>
        cases rooted with
        | true => exact ⟨n, names, hshape, hnames, hrooted⟩
        | false => exact ⟨1, [], by simp [climbs, hup], by simp, by simp⟩
      | cons top rest =>
        dsimp only
        cases names using List.reverseRecOn with
        | nil =>
          -- only climbs so far, so there is nothing to cancel
          have htop : top = (".." : Text) := by
            have hmem : top ∈ climbs n ++ [] := by rw [← hshape]; simp
            simp only [List.append_nil] at hmem
            exact List.eq_of_mem_replicate hmem
          rw [if_pos htop]
          refine ⟨n + 1, [], ?_, by simp, ?_⟩
          · rw [List.reverse_cons, hshape, hup]
            simp [climbs, List.replicate_succ']
          · intro hr
            have hn := hrooted hr
            subst hn
            simp [climbs] at hshape
        | append_singleton names last _ =>
          rw [List.reverse_cons, ← List.append_assoc] at hshape
          obtain ⟨hrest, htop⟩ := List.append_inj' hshape rfl
          obtain rfl : top = last := by simpa using htop
          rw [if_neg (hnames top (by simp)).ne_climb]
          exact ⟨n, names, hrest, fun p hp => hnames p (by simp [hp]), hrooted⟩
    next hup =>
      refine ⟨n, names ++ [part], by simp [hshape], ?_, hrooted⟩
      intro p hp
      rcases List.mem_append.mp hp with hp | hp
      · exact hnames p hp
      · rw [List.mem_singleton.mp hp]
        exact isName_iff.2 ⟨by simpa [Steers, or_assoc] using not_or.2 ⟨hstay, hup⟩, hpart⟩

theorem reduced_components (path : Text) : Reduced (isAbsolute path) (components path) := by
  have hfold : ∀ (parts stack : List Text), (∀ part ∈ parts, slash ∉ part) →
      Reduced (isAbsolute path) stack.reverse →
      Reduced (isAbsolute path) (parts.foldl (pushComponent (isAbsolute path)) stack).reverse := by
    intro parts
    induction parts with
    | nil => exact fun stack _ h => h
    | cons part parts ih =>
      intro stack hparts h
      exact ih _ (fun p hp => hparts p (by simp [hp])) (reduced_push h (hparts part (by simp)))
  exact hfold _ [] (fun part hp => Text.not_mem_of_mem_split hp) ⟨0, [], rfl, by simp, by simp⟩

/-- What is reduced already stays as it is. -/
theorem foldl_push_reduced {rooted : Bool} {parts : List Text} (h : Reduced rooted parts) :
    parts.foldl (pushComponent rooted) [] = parts.reverse := by
  obtain ⟨n, names, rfl, hnames, hrooted⟩ := h
  have hclimbs : ∀ k, (rooted = true → k = 0) →
      (climbs k).foldl (pushComponent rooted) [] = (climbs k).reverse := by
    intro k hk
    induction k with
    | zero => rfl
    | succ k ih =>
      have hfree : rooted = false := by
        cases hr : rooted with
        | false => rfl
        | true => exact absurd (hk hr) (Nat.succ_ne_zero k)
      subst hfree
      rw [climbs, List.replicate_succ', List.foldl_append, ← climbs, ih (by simp)]
      have hpush : pushComponent false (climbs k) ".." = (".." : Text) :: climbs k := by
        cases k with
        | zero => rfl
        | succ k => rfl
      simpa [climbs, List.replicate_succ'] using hpush
  have hdown : ∀ (ns stack : List Text), (∀ part ∈ ns, IsName part) →
      ns.foldl (pushComponent rooted) stack = ns.reverse ++ stack := by
    intro ns
    induction ns with
    | nil => exact fun stack _ => rfl
    | cons name ns ih =>
      intro stack hns
      have hname := hns name (by simp)
      have hpush : pushComponent rooted stack name = name :: stack := by
        simp [pushComponent, hname.ne_nil, hname.ne_dot, hname.ne_climb]
      rw [List.foldl_cons, hpush, ih _ fun p hp => hns p (by simp [hp])]
      simp
  rw [List.foldl_append, hclimbs n hrooted, hdown names _ hnames, List.reverse_append]

/-- The text of reduced components. -/
def spell (rooted : Bool) (parts : List Text) : Text :=
  if parts = [] then if rooted then "/" else "." else root rooted ++ Text.join "/" parts

theorem spell_concat (rooted : Bool) (parts : List Text) (last : Text) :
    spell rooted (parts ++ [last]) = root rooted ++ lane parts ++ last := by
  rw [spell, if_neg (by simp), join_concat, List.append_assoc]

theorem clean_eq_spell (path : Text) :
    clean path = spell (isAbsolute path) (components path) := by
  obtain ⟨n, names, hshape, hnames, -⟩ := reduced_components path
  have hlast : ∀ parts last, components path = parts ++ [last] → last ≠ [] := by
    intro parts last h hnil
    have hmem : last ∈ climbs n ++ names := by rw [← hshape, h]; simp
    rcases List.mem_append.mp hmem with hmem | hmem
    · rw [List.eq_of_mem_replicate hmem] at hnil
      exact absurd hnil (by decide)
    · exact (hnames last hmem).ne_nil hnil
  cases hparts : components path using List.reverseRecOn with
  | nil => cases h : isAbsolute path <;> simp [clean, spell, hparts, h, Text.join]
  | append_singleton parts last _ =>
    have hne : lane parts ++ last ≠ [] := by simp [hlast parts last hparts]
    cases h : isAbsolute path with
    | true =>
      simp only [clean, hparts, h, if_true, join_concat, spell_concat, root, List.append_assoc]
      rfl
    | false =>
      simp only [clean, hparts, h, join_concat, spell_concat, root, Bool.false_eq_true, if_false,
        if_neg hne, List.nil_append]

end Clean

/-- The place that a path spells when it is taken from a directory. -/
def spelled (start : List Text) (path : Text) : List Text :=
  (Text.split slash path).foldl climb (if isAbsolute path then [] else start)

/-- The directory that the names of a path go down from, after its climbs. -/
def source (rooted : Bool) (ups : Nat) (start : List Text) : List Text :=
  (climbs ups).foldl climb (if rooted then [] else start)

/-- A path without a name: it leads to a directory from any directory. -/
structure Bare (path : Text) : Prop where
  ne_nil : path ≠ []
  steers : ∀ part ∈ Text.split slash path, Steers part

theorem split_spell_climbs {rooted : Bool} {n : Nat} (h : rooted = true → n = 0) :
    Text.split slash (spell rooted (climbs n)) =
      if rooted then [[], []] else if n = 0 then ["."] else climbs n := by
  cases rooted with
  | true =>
    rw [h rfl]
    decide
  | false =>
    cases n with
    | zero => decide
    | succ n =>
      have hne : climbs (n + 1) ≠ [] := by simp [climbs]
      rw [spell, if_neg hne]
      refine split_join hne fun part hpart => ?_
      rw [List.eq_of_mem_replicate hpart]
      decide

theorem bare_spell_climbs {rooted : Bool} {n : Nat} (h : rooted = true → n = 0) :
    Bare (spell rooted (climbs n)) := by
  constructor
  · intro hnil
    have hsplit := split_spell_climbs h
    rw [hnil] at hsplit
    cases rooted with
    | true => simp [Text.split] at hsplit
    | false =>
      cases n with
      | zero => exact absurd hsplit (by decide)
      | succ n =>
        simp only [climbs, List.replicate_succ] at hsplit
        exact absurd (List.head_eq_of_cons_eq hsplit) (by decide)
  · intro part hpart
    rw [split_spell_climbs h] at hpart
    split at hpart
    · exact .inl (by simpa using hpart)
    · split at hpart
      · exact .inr (.inl (by simpa using hpart))
      · exact .inr (.inr (List.eq_of_mem_replicate hpart))

theorem isAbsolute_spell_climbs {rooted : Bool} {n : Nat} (h : rooted = true → n = 0) :
    isAbsolute (spell rooted (climbs n)) = rooted := by
  cases rooted with
  | true =>
    rw [h rfl]
    rfl
  | false =>
    cases n with
    | zero => rfl
    | succ n =>
      rw [climbs, List.replicate_succ', ← climbs, spell_concat, List.append_assoc]
      refine isAbsolute_root (fun part hp => ?_) (by decide)
      rw [List.eq_of_mem_replicate hp]
      decide

theorem spelled_spell_climbs {rooted : Bool} {n : Nat} (h : rooted = true → n = 0)
    (start : List Text) : spelled start (spell rooted (climbs n)) = source rooted n start := by
  rw [spelled, isAbsolute_spell_climbs h, split_spell_climbs h, source]
  cases rooted with
  | true =>
    rw [h rfl]
    rfl
  | false =>
    cases n with
    | zero => rfl
    | succ n => rfl

/-- A clean path is either bare or ends in a name. -/
theorem clean_cases (path : Text) : Bare (clean path) ∨ ∃ l : Leaf, clean path = l.text := by
  obtain ⟨n, names, hshape, hnames, hrooted⟩ := reduced_components path
  rw [clean_eq_spell, hshape]
  cases names using List.reverseRecOn with
  | nil =>
    rw [List.append_nil]
    exact .inl (bare_spell_climbs hrooted)
  | append_singleton dirs name _ =>
    refine .inr ⟨⟨isAbsolute path, n, dirs, name, hrooted, hnames⟩, ?_⟩
    rw [← List.append_assoc, spell_concat]
    rfl

theorem join_cases (dir path : Text) :
    join dir path = [] ∨ Bare (join dir path) ∨ ∃ l : Leaf, join dir path = l.text := by
  unfold join
  split
  · split
    · exact .inl rfl
    · exact .inr (clean_cases path)
  · exact .inr (clean_cases _)

section Cut

/-- A text that a component can follow: it is empty or ends in a slash. -/
def Ends (before : Text) : Prop := ∀ b ∈ before.getLast?, b = slash

theorem ends_lane (rooted : Bool) (parts : List Text) : Ends (root rooted ++ lane parts) := by
  cases parts using List.reverseRecOn with
  | nil => cases rooted <;> simp [Ends, root]
  | append_singleton parts part _ => simp [Ends]

theorem cutLast_append {before last : Text} (hb : Ends before) (hl : slash ∉ last) :
    cutLast (before ++ last) = (before, last) := by
  have htake : (before ++ last).reverse.takeWhile (· != slash) = last.reverse := by
    rw [List.reverse_append, List.takeWhile_append_of_pos]
    · cases before using List.reverseRecOn with
      | nil => simp
      | append_singleton before b _ =>
        obtain rfl : b = slash := hb b (by simp)
        simp
    · intro b hmem
      have hne : b ≠ slash := fun he => hl (by simpa [he] using hmem)
      simpa using hne
  simp only [cutLast, htake, List.reverse_reverse, List.length_append, Nat.add_sub_cancel,
    List.take_left]

/-- Slashes at the end are passed over. -/
theorem trim_append (before : Text) {last : Text} (hne : last ≠ []) (hl : slash ∉ last) :
    ((before ++ last).reverse.dropWhile (· == slash)).reverse = before ++ last := by
  obtain ⟨last, b, rfl⟩ := (List.eq_nil_or_concat' last).resolve_left hne
  have hb : b ≠ slash := fun he => hl (by simp [he])
  simp [hb]

end Cut

namespace Leaf

variable (l : Leaf)

theorem reduced_parts : Reduced l.rooted l.parts :=
  ⟨l.ups, l.dirs, rfl, l.dirs_isName, l.grounded⟩

theorem parts_ne_nil : ∀ part ∈ l.parts, part ≠ [] := by
  intro part hp
  rcases List.mem_append.mp hp with hp | hp
  · rw [List.eq_of_mem_replicate hp]
    decide
  · exact (l.dirs_isName part hp).ne_nil

theorem isAbsolute_text : isAbsolute l.text = l.rooted := by
  rw [text, stem, List.append_assoc]
  refine isAbsolute_root (fun p hp => ⟨l.parts_ne_nil p hp, l.slash_not_mem_parts p hp⟩) ?_
  intro hhead
  exact l.name_isName.no_slash (List.mem_of_head? hhead)

theorem text_ne_nil : l.text ≠ [] := by simp [text, l.name_isName.ne_nil]

theorem cutLast_text : cutLast l.text = (l.stem, l.name) :=
  cutLast_append (ends_lane _ _) l.name_isName.no_slash

@[simp] theorem base_text : base l.text = l.name := by
  have htrim := trim_append l.stem l.name_isName.ne_nil l.name_isName.no_slash
  rw [← text] at htrim
  simp [base, l.text_ne_nil, htrim, l.cutLast_text]

/-- The directory that the names of the path go down from. -/
def origin (start : List Text) : List Text := source l.rooted l.ups start

/-- The directory that the last name is in. -/
def parent (start : List Text) : List Text := l.origin start ++ l.dirs

theorem spelled_text (start : List Text) : spelled start l.text = l.parent start ++ [l.name] := by
  rw [spelled, l.isAbsolute_text, l.split_text, ← List.append_assoc, List.foldl_append,
    List.foldl_append, parts, List.foldl_append, foldl_climb_names l.dirs_isName, List.foldl_cons,
    climb_name l.name_isName, parent, origin, source]
  cases l.rooted <;> rfl

theorem isAbsolute_stem : isAbsolute l.stem = l.rooted := by
  rw [stem, ← List.append_nil (lane l.parts)]
  exact isAbsolute_root (fun p hp => ⟨l.parts_ne_nil p hp, l.slash_not_mem_parts p hp⟩) (by simp)

theorem components_stem : components l.stem = l.parts := by
  have hsplit : Text.split slash l.stem = (if l.rooted then [[]] else []) ++ (l.parts ++ [[]]) := by
    rw [stem, ← List.append_nil (lane l.parts), split_root, split_lane l.slash_not_mem_parts]
    rfl
  have hempty : ∀ stack, pushComponent l.rooted stack [] = stack := by simp [pushComponent]
  rw [components, l.isAbsolute_stem, hsplit, List.foldl_append, List.foldl_append]
  have hfirst : (if l.rooted then [[]] else []).foldl (pushComponent l.rooted) [] = [] := by
    cases l.rooted <;> rfl
  rw [hfirst, foldl_push_reduced l.reduced_parts, List.foldl_cons, hempty]
  simp

theorem directory_text : directory l.text = spell l.rooted l.parts := by
  rw [directory, l.cutLast_text, clean_eq_spell, l.isAbsolute_stem, l.components_stem]

theorem directory_text_prefix : directory l.text = "." ∨ directory l.text <+: l.text := by
  rw [directory_text, text, stem]
  cases l.parts using List.reverseRecOn with
  | nil =>
    cases l.rooted with
    | true => exact .inr ⟨l.name, rfl⟩
    | false => exact .inl rfl
  | append_singleton parts part _ =>
    refine .inr ⟨slash :: l.name, ?_⟩
    rw [spell_concat]
    simp

/-- The directory of a path is bare, or it ends in the last name but one. -/
theorem directory_cases :
    (l.dirs = [] ∧ Bare (directory l.text) ∧
      ∀ start, spelled start (directory l.text) = l.origin start) ∨
    ∃ above : Leaf, directory l.text = above.text ∧ l.dirs = above.dirs ++ [above.name] ∧
      ∀ start, above.origin start = l.origin start := by
  rw [directory_text, parts]
  cases hdirs : l.dirs using List.reverseRecOn with
  | nil =>
    rw [List.append_nil]
    exact .inl ⟨rfl, bare_spell_climbs l.grounded, spelled_spell_climbs l.grounded⟩
  | append_singleton dirs name _ =>
    have hnames : ∀ part ∈ dirs ++ [name], IsName part := hdirs ▸ l.dirs_isName
    refine .inr ⟨⟨l.rooted, l.ups, dirs, name, l.grounded, hnames⟩, ?_, rfl, fun _ => rfl⟩
    rw [← List.append_assoc, spell_concat]
    rfl

end Leaf

end Path

end Literate

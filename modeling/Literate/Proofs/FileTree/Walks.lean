import Literate.Proofs.FileTree.Outcome
import Literate.Proofs.Path.Spelling

/-! Walks along any path, clean or not. A walk comes to the place that the path spells, and as long
as directories stay directories it comes there again, with what is then at that place. -/

namespace Literate.FileTree

open Literate.Path

/-- The place that a walk has come to. -/
def Place.address : Place → List Text
  | .found place _ => place
  | .free place => place

theorem climb_onward {part : Text} (h : ¬Steers part) (place : List Text) :
    climb place part = place ++ [part] := by
  simp only [Steers, not_or] at h
  simp [climb, h]

theorem foldl_climb_empty {parts : List Text} (h : ∀ part ∈ parts, part = []) (place : List Text) :
    parts.foldl climb place = place := by
  induction parts with
  | nil => rfl
  | cons part parts ih =>
    rw [List.foldl_cons, climb, if_pos (.inl (h part (by simp))), ih fun p hp => h p (by simp [hp])]

variable {t u : FileTree} {place q : List Text} {part : Text} {parts rest : List Text} {p : Place}

section Walk

theorem walk_steering (h : Steers part) : t.walk (.found place .directory) (part :: rest) =
    t.walk (.found (climb place part) .directory) rest := by
  have hone : ∀ p ∈ [part], Steers p := by simpa using h
  exact walk_steers hone

theorem walk_onward (h : ¬Steers part) : t.walk (.found place .directory) (part :: rest) =
    if part.length > nameLimit then .error .nameTooLong
    else match t.get? (place ++ [part]) with
      | some node => t.walk (.found (place ++ [part]) node) rest
      | none => t.walk (.free (place ++ [part])) rest := by
  simp only [Steers, not_or] at h
  have hstay : ¬(part = [] ∨ part = ("." : Text)) := by simp [h]
  exact (if_neg hstay).trans (if_neg h.2.2)

theorem walk_free_ok (h : t.walk (.free place) parts = .ok p) :
    p = .free place ∧ ∀ part ∈ parts, part = [] := by
  cases parts with
  | nil => exact ⟨by simpa [walk, eq_comm] using h, by simp⟩
  | cons part parts =>
    unfold walk at h
    split at h
    next hempty =>
      refine ⟨by simpa [eq_comm] using h, fun other hother => ?_⟩
      rcases List.mem_cons.1 hother with rfl | hother
      · exact hempty.1
      · simpa using List.all_eq_true.1 hempty.2 other hother
    · cases h

/-- What a walk from a directory does with the next component. -/
theorem walk_cons_ok (h : t.walk (.found place .directory) (part :: parts) = .ok p) :
    (Steers part ∧ t.walk (.found (climb place part) .directory) parts = .ok p) ∨
    ¬Steers part ∧ part.length ≤ nameLimit ∧
      ((∃ node, t.get? (place ++ [part]) = some node ∧
        t.walk (.found (place ++ [part]) node) parts = .ok p) ∨
      t.get? (place ++ [part]) = none ∧ p = .free (place ++ [part]) ∧
        ∀ other ∈ parts, other = []) := by
  by_cases hsteers : Steers part
  · rw [walk_steering hsteers] at h
    exact .inl ⟨hsteers, h⟩
  · rw [walk_onward hsteers] at h
    split at h
    · cases h
    next hlen =>
      refine .inr ⟨hsteers, Nat.not_lt.1 hlen, ?_⟩
      cases hget : t.get? (place ++ [part]) with
      | some node =>
        rw [hget] at h
        exact .inl ⟨node, rfl, h⟩
      | none =>
        rw [hget] at h
        exact .inr ⟨rfl, walk_free_ok h⟩

theorem address_of_walk {node : FileNode} (h : t.walk (.found place node) parts = .ok p) :
    p.address = parts.foldl climb place := by
  induction parts generalizing place node with
  | nil =>
    obtain rfl : .found place node = p := by simpa [walk] using h
    rfl
  | cons part parts ih =>
    cases node with
    | file bytes => simp [walk] at h
    | directory =>
      rw [List.foldl_cons]
      rcases walk_cons_ok h with ⟨-, h⟩ | ⟨hname, -, ⟨node, -, h⟩ | ⟨-, rfl, hempty⟩⟩
      · exact ih h
      · rw [climb_onward hname]
        exact ih h
      · rw [climb_onward hname, foldl_climb_empty hempty]
        rfl

theorem get?_of_walk_free {node : FileNode} (h : t.walk (.found place node) parts = .ok (.free q)) :
    t.get? q = none := by
  induction parts generalizing place node with
  | nil => simp [walk] at h
  | cons part parts ih =>
    cases node with
    | file bytes => simp [walk] at h
    | directory =>
      rcases walk_cons_ok h with ⟨-, h⟩ | ⟨-, -, ⟨node, -, h⟩ | ⟨hnone, hfree, -⟩⟩
      · exact ih h
      · exact ih h
      · cases hfree
        exact hnone

/-- A walk that ends at a free place has a last name, behind which only slashes come. -/
theorem exists_name_of_walk_free {node : FileNode}
    (h : t.walk (.found place node) parts = .ok (.free q)) :
    ∃ before name after, parts = before ++ name :: after ∧ ¬Steers name ∧
      ∀ part ∈ after, part = [] := by
  induction parts generalizing place node with
  | nil => simp [walk] at h
  | cons part parts ih =>
    have hlater : ∀ {place node}, t.walk (.found place node) parts = .ok (.free q) →
        ∃ before name after, part :: parts = before ++ name :: after ∧ ¬Steers name ∧
          ∀ part ∈ after, part = [] := by
      intro place node h
      obtain ⟨before, name, after, rfl, hname, hempty⟩ := ih h
      exact ⟨part :: before, name, after, rfl, hname, hempty⟩
    cases node with
    | file bytes => simp [walk] at h
    | directory =>
      rcases walk_cons_ok h with ⟨-, h⟩ | ⟨hname, -, ⟨node, -, h⟩ | ⟨-, -, hempty⟩⟩
      · exact hlater h
      · exact hlater h
      · exact ⟨[], part, parts, rfl, hname, hempty⟩

theorem walk_append_singleton (last : Text) {node : FileNode}
    (h : t.walk (.found place node) (parts ++ [last]) = .ok p) :
    ∃ before, t.walk (.found place node) parts = .ok before ∧ t.walk before [last] = .ok p := by
  induction parts generalizing place node with
  | nil => exact ⟨_, rfl, h⟩
  | cons part parts ih =>
    cases node with
    | file bytes => simp [walk] at h
    | directory =>
      rw [List.cons_append] at h
      rcases walk_cons_ok h with ⟨hsteers, h⟩ | ⟨hname, hlen, ⟨node, hget, h⟩ | ⟨hget, rfl, hempty⟩⟩
      · rw [walk_steering hsteers]
        exact ih h
      · rw [walk_onward hname, if_neg (Nat.not_lt.2 hlen), hget]
        exact ih h
      · rw [walk_onward hname, if_neg (Nat.not_lt.2 hlen), hget]
        have hlast : last = [] := hempty last (by simp)
        have hparts : parts.all (· == []) = true := by simpa using fun p hp => hempty p (by simp [hp])
        refine ⟨.free (place ++ [part]), ?_, by simp [walk, hlast]⟩
        cases parts with
        | nil => rfl
        | cons next parts => simp_all [walk]

/-- A walk through directories is still one as long as they stay directories. -/
theorem walk_directory_mono (hkeep : ∀ q, t.get? q = some .directory → u.get? q = some .directory)
    (h : t.walk (.found place .directory) parts = .ok (.found q .directory)) :
    u.walk (.found place .directory) (parts ++ rest) = u.walk (.found q .directory) rest := by
  induction parts generalizing place with
  | nil =>
    obtain rfl : place = q := by simpa [walk] using h
    rfl
  | cons part parts ih =>
    rw [List.cons_append]
    rcases walk_cons_ok h with ⟨hsteers, h⟩ | ⟨hname, hlen, ⟨node, hget, h⟩ | ⟨-, hfree, -⟩⟩
    · rw [walk_steering hsteers]
      exact ih h
    · have hnode : node = .directory := by
        cases node with
        | directory => rfl
        | file bytes => cases parts <;> simp [walk] at h
      subst hnode
      rw [walk_onward hname, if_neg (Nat.not_lt.2 hlen), hkeep _ hget]
      exact ih h
    · cases hfree

end Walk

section Resolve

variable {path : Text}

theorem resolve_eq_ok : t.resolve path = .ok p ↔ Passable path ∧
    t.walk (.found (if isAbsolute path then [] else t.current) .directory)
      (Text.split slash path) = .ok p := by
  constructor
  · intro h
    have hpass := passable_of_resolve h
    exact ⟨hpass, (resolve_passable hpass).symm.trans h⟩
  · rintro ⟨hpass, h⟩
    exact (resolve_passable hpass).trans h

theorem address_of_resolve (h : t.resolve path = .ok p) : p.address = t.placeOf path :=
  address_of_walk (resolve_eq_ok.1 h).2

theorem place_of_find {node : FileNode} (h : t.find path = .ok (q, node)) : q = t.placeOf path :=
  address_of_resolve (find_eq_ok.1 h)

theorem get?_of_resolve_free (h : t.resolve path = .ok (.free q)) : t.get? q = none :=
  get?_of_walk_free (resolve_eq_ok.1 h).2

/-- A path whose last component is a name leads from a directory to what has the name there. -/
theorem resolve_name (hname : ¬Steers (cutLast path).2) (h : t.resolve path = .ok p) :
    ∃ parts dir, Text.split slash path = parts ++ [(cutLast path).2] ∧
      t.walk (.found (if isAbsolute path then [] else t.current) .directory) parts =
        .ok (.found dir .directory) ∧
      (cutLast path).2.length ≤ nameLimit ∧ p.address = dir ++ [(cutLast path).2] ∧
      (∀ q node, p = .found q node → t.get? q = some node) := by
  obtain ⟨parts, hsplit, -, -⟩ := split_cutLast path
  obtain ⟨-, hwalk⟩ := resolve_eq_ok.1 h
  rw [hsplit] at hwalk
  obtain ⟨before, hbefore, hlast⟩ := walk_append_singleton _ hwalk
  have hne : (cutLast path).2 ≠ [] := fun hnil => hname (.inl hnil)
  cases before with
  | free dir => exact absurd ((walk_free_ok hlast).2 _ (by simp)) hne
  | found dir node =>
    cases node with
    | file bytes => simp [walk] at hlast
    | directory =>
      refine ⟨parts, dir, hsplit, hbefore, ?_⟩
      rcases walk_cons_ok hlast with ⟨hsteers, -⟩ | ⟨-, hlen, ⟨node, hget, hp⟩ | ⟨-, rfl, -⟩⟩
      · exact absurd hsteers hname
      · obtain rfl : .found (dir ++ [(cutLast path).2]) node = p := by simpa [walk] using hp
        refine ⟨hlen, rfl, ?_⟩
        rintro q node' ⟨⟩
        exact hget
      · exact ⟨hlen, rfl, fun q node h => by cases h⟩

/-- A path whose last component is no name leads to a directory if it leads to anything. -/
theorem directory_of_find (hsteers : Steers (cutLast path).2) {node : FileNode}
    (h : t.find path = .ok (q, node)) : node = .directory := by
  obtain ⟨parts, hsplit, -, -⟩ := split_cutLast path
  obtain ⟨-, hwalk⟩ := resolve_eq_ok.1 (find_eq_ok.1 h)
  rw [hsplit] at hwalk
  obtain ⟨before, -, hlast⟩ := walk_append_singleton _ hwalk
  cases before with
  | free dir => cases (walk_free_ok hlast).1
  | found dir found =>
    cases found with
    | file bytes => simp [walk] at hlast
    | directory =>
      rw [walk_steering hsteers] at hlast
      simp only [walk, Except.ok.injEq, Place.found.injEq] at hlast
      exact hlast.2.symm

/-- A path leads where it led before as long as directories stay directories. -/
theorem find_mono (hcurrent : u.current = t.current)
    (hkeep : ∀ q, t.get? q = some .directory → u.get? q = some .directory)
    (hname : ¬Steers (cutLast path).2) (h : t.resolve path = .ok p) {node : FileNode}
    (hget : u.get? p.address = some node) : u.find path = .ok (p.address, node) := by
  obtain ⟨parts, dir, hsplit, hdir, hlen, haddress, -⟩ := resolve_name hname h
  rw [haddress] at hget
  rw [find_eq_ok, resolve_eq_ok, hcurrent, hsplit, walk_directory_mono hkeep hdir,
    walk_onward hname, if_neg (Nat.not_lt.2 hlen), hget, haddress]
  exact ⟨passable_of_resolve h, rfl⟩

/-- What a path leads to it still leads to in a tree that has all entries of the first. -/
theorem find_of_get?_mono (hcurrent : u.current = t.current)
    (hkeep : ∀ q node, t.get? q = some node → u.get? q = some node) {node : FileNode}
    (h : t.find path = .ok (q, node)) : u.find path = .ok (q, node) := by
  have hdirs : ∀ q, t.get? q = some .directory → u.get? q = some .directory :=
    fun q => hkeep q .directory
  by_cases hsteers : Steers (cutLast path).2
  · obtain rfl := directory_of_find hsteers h
    obtain ⟨hpass, hwalk⟩ := resolve_eq_ok.1 (find_eq_ok.1 h)
    rw [find_eq_ok, resolve_eq_ok, hcurrent, ← List.append_nil (Text.split slash path)]
    exact ⟨hpass, walk_directory_mono hdirs hwalk⟩
  · have hres := find_eq_ok.1 h
    obtain ⟨parts, dir, -, -, -, -, hfound⟩ := resolve_name hsteers hres
    exact find_mono hcurrent hdirs hsteers hres (hkeep _ _ (hfound q node rfl))

end Resolve

end Literate.FileTree

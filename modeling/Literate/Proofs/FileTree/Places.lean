import Mathlib.Data.Finset.Card
import Mathlib.Data.Finset.Image
import Literate.FileTree
import Literate.Proofs.Text.Lines

/-! Where paths lead. A walk that finds an entry ends at the place that the words of the path spell,
so the absolute form of a path that can be opened is the name of one place of the tree. -/

namespace Literate

namespace Path

/-- A component that stands for itself. -/
structure IsName (part : Text) : Prop where
  ne_nil : part ≠ []
  ne_dot : part ≠ ("." : Text)
  ne_climb : part ≠ (".." : Text)
  no_slash : slash ∉ part

/-- The place that one more component leads to. -/
def climb (place : List Text) (part : Text) : List Text :=
  if part = [] ∨ part = ("." : Text) then place
  else if part = (".." : Text) then place.dropLast
  else place ++ [part]

theorem climb_name {part : Text} (h : IsName part) (place : List Text) :
    climb place part = place ++ [part] := by
  simp [climb, h.ne_nil, h.ne_dot, h.ne_climb]

theorem foldl_climb_names {parts : List Text} (h : ∀ part ∈ parts, IsName part)
    (place : List Text) : parts.foldl climb place = place ++ parts := by
  induction parts generalizing place with
  | nil => simp
  | cons part parts ih =>
    rw [List.foldl_cons, climb_name (h part (by simp)), ih (fun p hp => h p (by simp [hp]))]
    simp

/-- Below the root no climb is left on the stack, so each one cancels a component. -/
theorem pushComponent_rooted {stack : List Text} (h : (".." : Text) ∉ stack) (part : Text) :
    (".." : Text) ∉ pushComponent true stack part ∧
      (pushComponent true stack part).reverse = climb stack.reverse part := by
  unfold pushComponent climb
  by_cases hkeep : part = [] ∨ part = ("." : Text)
  · simp only [if_pos hkeep]
    exact ⟨h, trivial⟩
  · by_cases hup : part = (".." : Text)
    · simp only [if_neg hkeep, if_pos hup]
      cases stack with
      | nil => simp
      | cons top rest =>
        obtain ⟨htop, hrest⟩ := List.ne_and_not_mem_of_not_mem_cons h
        simp [Ne.symm htop, hrest]
    · simp only [if_neg hkeep, if_neg hup]
      exact ⟨List.not_mem_cons_of_ne_of_not_mem (Ne.symm hup) h, List.reverse_cons⟩

theorem reverse_foldl_pushComponent {stack : List Text} (h : (".." : Text) ∉ stack)
    (parts : List Text) :
    (parts.foldl (pushComponent true) stack).reverse = parts.foldl climb stack.reverse := by
  induction parts generalizing stack with
  | nil => rfl
  | cons part parts ih =>
    obtain ⟨hno, hrev⟩ := pushComponent_rooted h part
    rw [List.foldl_cons, ih hno, hrev, List.foldl_cons]

/-- The name of a place: its components behind slashes. -/
def ofPlace (place : List Text) : Text := "/" ++ Text.join "/" place

theorem clean_rooted {path : Text} (h : isAbsolute path = true) :
    clean path = ofPlace ((Text.split slash path).foldl climb []) := by
  have hparts := reverse_foldl_pushComponent (List.not_mem_nil (a := (".." : Text)))
    (Text.split slash path)
  simp only [clean, components, h, if_true, hparts, ofPlace, List.reverse_nil]

theorem split_join {parts : List Text} (hne : parts ≠ []) (h : ∀ part ∈ parts, slash ∉ part) :
    Text.split slash (Text.join "/" parts) = parts := by
  have hslash : Text.ofString "/" = [slash] := by decide
  induction parts with
  | nil => exact absurd rfl hne
  | cons part parts ih =>
    have hpart := h part (by simp)
    cases parts with
    | nil => simpa [Text.join] using Text.split_of_not_mem hpart
    | cons next parts =>
      have hrest := ih (by simp) (fun p hp => h p (by simp [hp]))
      rw [Text.join, List.intercalate_cons_cons, hslash, List.append_assoc, List.singleton_append,
        Text.split_append_sep hpart, ← hslash]
      exact congrArg (part :: ·) hrest

theorem foldl_climb_ofPlace {place : List Text} (h : ∀ part ∈ place, IsName part) :
    (Text.split slash (ofPlace place)).foldl climb [] = place := by
  have hslash : ofPlace place = slash :: Text.join "/" place := rfl
  rw [hslash, Text.split_sep, List.foldl_cons]
  by_cases hne : place = []
  · subst hne
    rfl
  · rw [split_join hne (fun p hp => (h p hp).no_slash), foldl_climb_names h]
    rfl

end Path

namespace FileTree

open Literate.Path

variable {t : FileTree}

/-- The files and directories, the root among them. -/
def places (t : FileTree) : Finset (List Text) := insert [] (t.entries.map Prod.fst).toFinset

theorem card_places_le (t : FileTree) : t.places.card ≤ t.entries.length + 1 := by
  have hentries : (t.entries.map Prod.fst).toFinset.card ≤ t.entries.length := by
    simpa using List.toFinset_card_le (t.entries.map Prod.fst)
  exact (Finset.card_insert_le _ _).trans (by omega)

theorem mem_places {place : List Text} (h : (t.get? place).isSome) : place ∈ t.places := by
  unfold get? at h
  split at h
  · simp_all [places]
  · obtain ⟨node, hnode⟩ := Option.isSome_iff_exists.1 h
    obtain ⟨before, after, hentries, -⟩ := List.lookup_eq_some_iff.1 hnode
    simp [places, hentries]

/-- The place and all above it are in the tree. -/
def Listed (t : FileTree) (place : List Text) : Prop := ∀ p, p <+: place → (t.get? p).isSome

theorem Listed.concat {place : List Text} (h : t.Listed place) {part : Text}
    (hpart : (t.get? (place ++ [part])).isSome) : t.Listed (place ++ [part]) := by
  intro p hp
  obtain hp | hp := List.prefix_concat_iff.1 hp
  · rwa [hp]
  · exact h p hp

/-- The current directory is a directory of the tree. -/
structure WellPlaced (t : FileTree) : Prop where
  names : ∀ part ∈ t.current, IsName part
  directories : ∀ place, place <+: t.current → t.get? place = some .directory

theorem walk_free (place : List Text) (parts : List Text) {q : List Text} {node : FileNode} :
    t.walk (.free place) parts ≠ .ok (.found q node) := by
  cases parts with
  | nil => simp [walk]
  | cons part parts =>
    unfold walk
    split <;> simp

theorem walk_found {place q : List Text} {node last : FileNode} {parts : List Text}
    (hp : t.Listed place) (h : t.walk (.found place node) parts = .ok (.found q last)) :
    q = parts.foldl climb place ∧ t.Listed q := by
  induction parts generalizing place node with
  | nil =>
    simp only [walk, Except.ok.injEq, Place.found.injEq] at h
    exact ⟨h.1.symm, h.1 ▸ hp⟩
  | cons part parts ih =>
    cases node with
    | file bytes => simp [walk] at h
    | directory =>
      unfold walk at h
      rw [List.foldl_cons]
      unfold climb
      split at h
      next hkeep =>
        rw [if_pos hkeep]
        exact ih hp h
      next hkeep =>
        rw [if_neg hkeep]
        split at h
        next hup =>
          rw [if_pos hup]
          exact ih (fun p hpre => hp p (hpre.trans (List.dropLast_prefix place))) h
        next hup =>
          rw [if_neg hup]
          split at h
          · simp at h
          · split at h
            next node hnode => exact ih (hp.concat (by simp [hnode])) h
            next => exact absurd h (walk_free _ _)

theorem WellPlaced.listed (h : t.WellPlaced) : t.Listed t.current := fun p hp => by
  simp [h.directories p hp]

theorem listed_nil : t.Listed [] := fun p hp => by
  simp [List.prefix_nil.1 hp, get?]

theorem walk_of_find {path : Text} {place : List Text} {node : FileNode}
    (h : t.find path = .ok (place, node)) :
    t.walk (.found (if isAbsolute path then [] else t.current) .directory)
      (Text.split slash path) = .ok (.found place node) := by
  have hresolve : t.resolve path = .ok (.found place node) := by
    unfold find at h
    split at h <;> simp_all
  unfold resolve at hresolve
  split at hresolve
  · simp at hresolve
  · split at hresolve
    · simp at hresolve
    · split at hresolve
      · simp at hresolve
      · exact hresolve

theorem absolute_relative {path : Text} (h : isAbsolute path = false) :
    t.absolute path = clean (ofPlace t.current ++ slash :: path) := by
  have hslash : ∀ dir : Text, dir ++ "/" ++ path = dir ++ slash :: path := fun dir =>
    List.append_assoc dir [slash] path
  simp only [absolute, h, Path.join, Bool.false_eq_true, if_false, hslash]
  exact if_neg (List.cons_ne_nil _ _)

theorem isAbsolute_absolute (t : FileTree) (path : Text) : isAbsolute (t.absolute path) = true := by
  cases h : isAbsolute path with
  | true =>
    rw [absolute, if_pos h, clean_rooted h]
    rfl
  | false =>
    rw [absolute_relative h, clean_rooted rfl]
    rfl

/-- What a path leads to is in the tree, and the absolute form of the path is its name. -/
theorem absolute_of_find (ht : t.WellPlaced) {path : Text} {place : List Text} {node : FileNode}
    (h : t.find path = .ok (place, node)) :
    t.absolute path = ofPlace place ∧ place ∈ t.places := by
  have hwalk := walk_of_find h
  cases hpath : isAbsolute path with
  | true =>
    rw [if_pos hpath] at hwalk
    obtain ⟨hplace, hlisted⟩ := walk_found listed_nil hwalk
    refine ⟨?_, mem_places (hlisted place List.prefix_rfl)⟩
    rw [absolute, if_pos hpath, clean_rooted hpath, hplace]
  | false =>
    rw [if_neg (by simp [hpath])] at hwalk
    obtain ⟨hplace, hlisted⟩ := walk_found ht.listed hwalk
    refine ⟨?_, mem_places (hlisted place List.prefix_rfl)⟩
    rw [absolute_relative hpath, clean_rooted rfl, Text.split_append_cons_sep, List.foldl_append,
      foldl_climb_ofPlace ht.names, hplace]

theorem absolute_of_openEntry (ht : t.WellPlaced) {path : Text} {node : FileNode}
    (h : t.openEntry path = .ok node) :
    ∃ place ∈ t.places, t.absolute path = ofPlace place := by
  obtain ⟨place, hfind⟩ : ∃ place, t.find path = .ok (place, node) := by
    unfold openEntry at h
    split at h <;> simp_all
  obtain ⟨hname, hplace⟩ := absolute_of_find ht hfind
  exact ⟨place, hplace, hname⟩

end FileTree

end Literate
